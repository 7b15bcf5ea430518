import ComplyLayer.Dsl.Tokenizer
import Mathlib.Data.List.TakeWhile

/-!
# What the textual guards bound

The scan agrees with the tokenizer on strings, brackets and words. It starts a new run of operators
at a comment or a continuation, takes an f-string for a string, and reads a comment on past a lone
carriage return. Without these it bounds the depth of the token stream, and the runs that no comment
and no continuation breaks (`guard_bounds_iff`).
-/

namespace ComplyLayer

open Theory Tokenizer

/-- `str.isalnum` on what the scan asks it about: the ASCII range, and white space. -/
structure Python.KnowsAlnum (py : Python) : Prop where
  ascii : ∀ c : Char, c.toNat < 128 → py.isalnum c = (RuleValidator.isAsciiLetter c || c.isDigit)
  space : ∀ c, isspace c = true → py.isalnum c = false

/-- The scan, with fuel enough, lets the text through. -/
def Accepts (py : Python) (depth run : Nat) (cs : List Char) : Prop :=
  ∃ n, cs.length ≤ n ∧ scan py depth run n cs = .ok ()

/-! ## The text that a skip leaves -/

theorem length_skipLiteral_le (delimiter cs : List Char) :
    (skipLiteral delimiter cs).length ≤ cs.length := by
  fun_induction skipLiteral delimiter cs with
  | case1 | case2 => exact Nat.zero_le _
  | case3 _ rest ih => exact ih.trans (by simp only [List.length_cons]; omega)
  | case4 c rest _ _ h =>
    rw [List.length_drop]
    omega
  | case5 c rest _ _ h ih => exact ih.trans (Nat.le_succ _)

theorem length_skipComment_le (cs : List Char) : (skipComment cs).length ≤ cs.length := by
  fun_induction skipComment cs with
  | case1 => exact Nat.zero_le _
  | case2 rest => exact Nat.le_succ _
  | case3 c rest _ ih => exact ih.trans (Nat.le_succ _)

/-- The delimiter of a string is made of quotes. -/
theorem delimiterOf_eq (quote : Char) (source : List Char) :
    delimiterOf quote source = [quote] ∨ delimiterOf quote source = [quote, quote, quote] := by
  unfold delimiterOf
  split
  · exact .inr rfl
  · exact .inl rfl

theorem skipString_eq (quote : Char) (source : List Char) :
    skipString quote source = skipLiteral (delimiterOf quote source)
      (source.drop (delimiterOf quote source).length) := rfl

theorem length_skipString_le (c : Char) (cs : List Char) :
    (skipString c (c :: cs)).length ≤ cs.length := by
  rw [skipString_eq]
  refine (length_skipLiteral_le _ _).trans ?_
  rw [List.length_drop, List.length_cons]
  rcases delimiterOf_eq c (c :: cs) with h | h <;> rw [h] <;> simp

/-! ## One turn of the scan -/

section
variable {py : Python} {depth run : Nat} {c : Char} {cs rest : List Char}

theorem Accepts.intro {n : Nat} (hn : cs.length ≤ n) (h : scan py depth run n cs = .ok ()) :
    Accepts py depth run cs := ⟨n, hn, h⟩

/-- The fuel that is left after a character is enough for what follows. -/
theorem Accepts.cons (h : Accepts py depth run (c :: cs)) :
    ∃ n, cs.length ≤ n ∧ scan py depth run (n + 1) (c :: cs) = .ok () := by
  obtain ⟨n, hn, hscan⟩ := h
  cases n with
  | zero => exact absurd hn (Nat.not_succ_le_zero _)
  | succ n => exact ⟨n, Nat.le_of_succ_le_succ hn, hscan⟩

theorem Accepts.quote (hc : isQuote c = true) (h : Accepts py depth run (c :: cs)) :
    Accepts py depth 0 (skipString c (c :: cs)) := by
  obtain ⟨n, hn, hscan⟩ := h.cons
  rw [scan, if_pos hc] at hscan
  exact .intro ((length_skipString_le c cs).trans hn) hscan

theorem Accepts.comment (h : Accepts py depth run ('#' :: cs)) :
    Accepts py depth 0 (skipComment cs) := by
  obtain ⟨n, hn, hscan⟩ := h.cons
  exact .intro ((length_skipComment_le cs).trans hn) hscan

theorem isOpener_eq (hc : isOpener c = true) : c = '(' ∨ c = '[' ∨ c = '{' := by
  simpa [isOpener, or_assoc] using hc

theorem isCloser_eq (hc : isCloser c = true) : c = ')' ∨ c = ']' ∨ c = '}' := by
  simpa [isCloser, or_assoc] using hc

theorem isUnaryChar_eq (hc : isUnaryChar c = true) : c = '-' ∨ c = '+' ∨ c = '~' := by
  simpa [isUnaryChar, or_assoc] using hc

theorem Accepts.opener (hc : isOpener c = true) (h : Accepts py depth run (c :: cs)) :
    depth + 1 ≤ maxNestingDepth ∧ Accepts py (depth + 1) 0 cs := by
  obtain ⟨n, hn, hscan⟩ := h.cons
  have hquote : isQuote c = false ∧ c ≠ '#' := by
    rcases isOpener_eq hc with rfl | rfl | rfl <;> decide
  rw [scan, hquote.1, if_neg Bool.false_ne_true, if_neg hquote.2, if_pos hc] at hscan
  split at hscan
  · cases hscan
  · rename_i hdepth
    exact ⟨Nat.not_lt.mp hdepth, .intro hn hscan⟩

theorem Accepts.closer (hc : isCloser c = true) (h : Accepts py depth run (c :: cs)) :
    Accepts py (depth - 1) 0 cs := by
  obtain ⟨n, hn, hscan⟩ := h.cons
  have hquote : isQuote c = false ∧ c ≠ '#' ∧ isOpener c = false := by
    rcases isCloser_eq hc with rfl | rfl | rfl <;> decide
  rw [scan, hquote.1, if_neg Bool.false_ne_true, if_neg hquote.2.1, hquote.2.2,
    if_neg Bool.false_ne_true, if_pos hc] at hscan
  exact .intro hn hscan

theorem Accepts.sign (hc : isUnaryChar c = true) (h : Accepts py depth run (c :: cs)) :
    run + 1 ≤ maxUnaryRun ∧ Accepts py depth (run + 1) cs := by
  obtain ⟨n, hn, hscan⟩ := h.cons
  have hquote : isQuote c = false ∧ c ≠ '#' ∧ isOpener c = false ∧ isCloser c = false := by
    rcases isUnaryChar_eq hc with rfl | rfl | rfl <;> decide
  rw [scan, hquote.1, if_neg Bool.false_ne_true, if_neg hquote.2.1, hquote.2.2.1,
    if_neg Bool.false_ne_true, hquote.2.2.2, if_neg Bool.false_ne_true, if_pos hc] at hscan
  split at hscan
  · cases hscan
  · rename_i hrun
    exact ⟨Nat.not_lt.mp hrun, .intro hn hscan⟩

/-- A character that no branch of the scan is about but the last ones. -/
structure Ordinary (c : Char) : Prop where
  quote : isQuote c = false
  comment : c ≠ '#'
  opener : isOpener c = false
  closer : isCloser c = false
  sign : isUnaryChar c = false

theorem Ordinary.scan_eq (h : Ordinary c) (n : Nat) : scan py depth run (n + 1) (c :: cs) =
    if startsWord py (c :: cs) ['n', 'o', 't'] then
      if maxUnaryRun < run + 1 then .error (.tooManyOperators maxUnaryRun)
      else scan py depth (run + 1) n (cs.drop 2)
    else if isspace c then scan py depth run n cs
    else if 128 ≤ c.toNat then .error (.nonAsciiSource py c)
    else scan py depth 0 n cs := by
  rw [scan, h.quote, if_neg Bool.false_ne_true, if_neg h.comment, h.opener,
    if_neg Bool.false_ne_true, h.closer, if_neg Bool.false_ne_true, h.sign,
    if_neg Bool.false_ne_true]

theorem startsWord_not_head (h : startsWord py (c :: cs) ['n', 'o', 't'] = true) : c = 'n' := by
  rw [startsWord, Bool.and_eq_true, List.isPrefixOf_cons_cons, Bool.and_eq_true] at h
  exact (beq_iff_eq.mp h.1.1).symm

theorem Accepts.not (hword : startsWord py (c :: cs) ['n', 'o', 't'] = true)
    (h : Accepts py depth run (c :: cs)) :
    run + 1 ≤ maxUnaryRun ∧ Accepts py depth (run + 1) (cs.drop 2) := by
  obtain ⟨n, hn, hscan⟩ := h.cons
  cases startsWord_not_head hword
  rw [Ordinary.scan_eq ⟨rfl, by decide, rfl, rfl, rfl⟩, if_pos hword] at hscan
  split at hscan
  · cases hscan
  · rename_i hrun
    refine ⟨Nat.not_lt.mp hrun, .intro ?_ hscan⟩
    rw [List.length_drop]
    omega

/-- Past a character that is no operator the run goes on or ends. -/
theorem Accepts.ordinary (hc : Ordinary c)
    (hword : startsWord py (c :: cs) ['n', 'o', 't'] = false) (h : Accepts py depth run (c :: cs)) :
    isspace c = true ∧ Accepts py depth run cs ∨ c.toNat < 128 ∧ Accepts py depth 0 cs := by
  obtain ⟨n, hn, hscan⟩ := h.cons
  rw [hc.scan_eq, hword, if_neg Bool.false_ne_true] at hscan
  split at hscan
  · exact .inl ⟨‹_›, .intro hn hscan⟩
  · split at hscan
    · cases hscan
    · rename_i hascii
      exact .inr ⟨Nat.not_le.mp hascii, .intro hn hscan⟩

/-- The characters that a branch of the scan is about. -/
def specials : List Char := ['\'', '"', '#', '(', '[', '{', ')', ']', '}', '-', '+', '~']

/-- A character of a kind that no special character is of. -/
theorem ordinary_of {p : Char → Bool} (hp : specials.any p = false) (hc : p c = true) :
    Ordinary c := by
  have hne : ∀ d ∈ specials, c ≠ d := by
    rintro d hd rfl
    exact List.any_eq_false.mp hp c hd hc
  simp only [specials, List.forall_mem_cons] at hne
  constructor <;> simp [isQuote, isOpener, isCloser, isUnaryChar, hne]

theorem ordinary_of_isspace (hc : isspace c = true) : Ordinary c :=
  ordinary_of rfl hc

theorem ne_of_isspace {d : Char} (hc : isspace c = true) (hd : isspace d = false) : c ≠ d := by
  rintro rfl
  rw [hc] at hd
  cases hd

theorem startsWord_eq_false (hc : c ≠ 'n') : startsWord py (c :: cs) ['n', 'o', 't'] = false :=
  Bool.eq_false_iff.mpr fun h => hc (startsWord_not_head h)

/-- White space leaves the scan where it is. -/
theorem accepts_space_iff (hc : isspace c = true) :
    Accepts py depth run (c :: cs) ↔ Accepts py depth run cs := by
  have hordinary := ordinary_of_isspace hc
  have hne : c ≠ 'n' := ne_of_isspace hc rfl
  constructor
  · intro h
    obtain ⟨n, hn, hscan⟩ := h.cons
    rw [hordinary.scan_eq, startsWord_eq_false hne, if_neg Bool.false_ne_true, if_pos hc] at hscan
    exact .intro hn hscan
  · rintro ⟨n, hn, hscan⟩
    refine ⟨n + 1, Nat.succ_le_succ hn, ?_⟩
    rw [hordinary.scan_eq, startsWord_eq_false hne, if_neg Bool.false_ne_true, if_pos hc]
    exact hscan

theorem accepts_spaces_iff (hcs : ∀ c ∈ cs, isspace c = true) :
    Accepts py depth run (cs ++ rest) ↔ Accepts py depth run rest := by
  induction cs with
  | nil => exact Iff.rfl
  | cons c cs ih =>
    rw [List.cons_append, accepts_space_iff (hcs c List.mem_cons_self),
      ih fun d hd => hcs d (List.mem_cons_of_mem _ hd)]

/-! ## Strings -/

/-- White space, which is all that can follow the text that is parsed. -/
def Blank (tail : List Char) : Prop := ∀ c ∈ tail, isspace c = true

/-- The quotes of a string. -/
def IsDelimiter (delimiter : List Char) : Prop :=
  ∃ quote, isQuote quote = true ∧ (delimiter = [quote] ∨ delimiter = [quote, quote, quote])

theorem IsDelimiter.head_ne {delimiter : List Char} (h : IsDelimiter delimiter)
    (hquotes : delimiter.isPrefixOf ('\\' :: cs) = true) : False := by
  obtain ⟨quote, hq, rfl | rfl⟩ := h <;>
  · rw [List.isPrefixOf_cons_cons, Bool.and_eq_true, beq_iff_eq] at hquotes
    rw [hquotes.1] at hq
    cases hq

theorem skipLiteral_cons (hc : c ≠ '\\') (delimiter : List Char) :
    skipLiteral delimiter (c :: cs) =
      if delimiter.isPrefixOf (c :: cs) then (c :: cs).drop delimiter.length
      else skipLiteral delimiter cs := by
  rw [skipLiteral.eq_def]
  split
  · cases ‹c :: cs = []›
  · exact absurd (List.cons.inj ‹_›).1 hc
  · exact absurd (List.cons.inj ‹_›).1 hc
  · cases ‹c :: cs = _›
    rfl

theorem skipLiteral_of_ne {delimiter : List Char} (hdelimiter : IsDelimiter delimiter)
    (hquote : isQuote c = false) (hc : c ≠ '\\') :
    skipLiteral delimiter (c :: cs) = skipLiteral delimiter cs := by
  obtain ⟨quote, hq, hdelimiter⟩ := hdelimiter
  have hne : (quote == c) = false := by
    refine beq_eq_false_iff_ne.mpr ?_
    rintro rfl
    rw [hq] at hquote
    cases hquote
  rw [skipLiteral_cons hc]
  rcases hdelimiter with rfl | rfl <;> simp [List.isPrefixOf, hne]

/-- White space at the end of the text makes no delimiter. -/
theorem isPrefixOf_append_of_forall {quote : Char} {l tail : List Char}
    (hquote : isQuote quote = true)
    (hl : ∀ c ∈ l, c = quote) (htail : Blank tail) :
    l.isPrefixOf (cs ++ tail) = l.isPrefixOf cs := by
  induction l generalizing cs with
  | nil => rfl
  | cons c l ih =>
    cases cs with
    | nil =>
      cases tail with
      | nil => rfl
      | cons t tail =>
        have hne : (c == t) = false := by
          rw [hl c List.mem_cons_self]
          refine beq_eq_false_iff_ne.mpr ?_
          rintro rfl
          have hspace := htail _ List.mem_cons_self
          rw [(ordinary_of_isspace hspace).quote] at hquote
          cases hquote
        rw [List.nil_append, List.isPrefixOf_cons_cons, hne]
        rfl
    | cons d cs =>
      rw [List.cons_append, List.isPrefixOf_cons_cons, List.isPrefixOf_cons_cons,
        ih fun d hd => hl d (List.mem_cons_of_mem _ hd)]

theorem isPrefixOf_append {delimiter tail : List Char} (hdelimiter : IsDelimiter delimiter)
    (htail : Blank tail) :
    delimiter.isPrefixOf (cs ++ tail) = delimiter.isPrefixOf cs := by
  obtain ⟨quote, hq, rfl | rfl⟩ := hdelimiter
  · exact isPrefixOf_append_of_forall hq (by simp) htail
  · exact isPrefixOf_append_of_forall hq (by simp) htail

theorem drop_append_of_isPrefixOf {delimiter tail : List Char}
    (h : delimiter.isPrefixOf cs = true) :
    (cs ++ tail).drop delimiter.length = cs.drop delimiter.length ++ tail :=
  List.drop_append_of_le_length (List.isPrefixOf_iff_prefix.mp h).length_le

theorem ne_backslash (hnil : c = '\\' → cs = [] → False)
    (hcons : ∀ d rest, c = '\\' → cs = d :: rest → False) : c ≠ '\\' := by
  rintro rfl
  cases cs with
  | nil => exact hnil rfl rfl
  | cons d cs => exact hcons d cs rfl rfl

/-- Where the tokenizer ends a string, the scan ends it too. -/
theorem skipLiteral_of_afterString {delimiter tail : List Char} (hdelimiter : IsDelimiter delimiter)
    (htail : Blank tail) (h : afterString delimiter cs = some rest) :
    skipLiteral delimiter (cs ++ tail) = rest ++ tail := by
  fun_induction afterString delimiter cs with
  | case1 | case2 => cases h
  | case3 cs ih =>
    change skipLiteral delimiter ('\n' :: (cs ++ tail)) = _
    rw [skipLiteral_of_ne hdelimiter rfl (by decide)]
    exact ih h
  | case4 x cs _ ih => exact ih h
  | case5 c cs hnil _ hcons hquotes =>
    cases h
    rw [List.cons_append, skipLiteral_cons (ne_backslash hnil hcons), ← List.cons_append,
      isPrefixOf_append hdelimiter htail, if_pos hquotes, drop_append_of_isPrefixOf hquotes]
  | case6 => cases h
  | case7 c cs hnil _ hcons hquotes _ ih =>
    rw [List.cons_append, skipLiteral_cons (ne_backslash hnil hcons), ← List.cons_append,
      isPrefixOf_append hdelimiter htail, if_neg hquotes]
    exact ih h

theorem isDelimiter_delimiterOf (hc : isQuote c = true) (cs : List Char) :
    IsDelimiter (delimiterOf c cs) := ⟨c, hc, delimiterOf_eq c cs⟩

theorem delimiterOf_append {tail : List Char} (hc : isQuote c = true) (htail : Blank tail) :
    delimiterOf c (cs ++ tail) = delimiterOf c cs := by
  rw [delimiterOf, delimiterOf, isPrefixOf_append ⟨c, hc, .inr rfl⟩ htail]

/-- The opening quotes of a string. -/
theorem drop_delimiterOf_append (c : Char) (cs tail : List Char) :
    ((c :: cs) ++ tail).drop (delimiterOf c (c :: cs)).length =
      (c :: cs).drop (delimiterOf c (c :: cs)).length ++ tail := by
  refine List.drop_append_of_le_length ?_
  unfold delimiterOf
  split
  · rename_i hquotes
    exact (List.isPrefixOf_iff_prefix.mp hquotes).length_le
  · exact Nat.succ_le_succ (Nat.zero_le _)

/-- Past a string that the tokenizer ends. -/
theorem Accepts.string {tail : List Char} (hc : isQuote c = true) (htail : Blank tail)
    (hrest : afterString (delimiterOf c (c :: cs))
      ((c :: cs).drop (delimiterOf c (c :: cs)).length) = some rest)
    (h : Accepts py depth run ((c :: cs) ++ tail)) : Accepts py depth 0 (rest ++ tail) := by
  have hskip : Accepts py depth 0 (skipString c ((c :: cs) ++ tail)) := Accepts.quote hc h
  rw [skipString_eq, delimiterOf_append hc htail, drop_delimiterOf_append,
    skipLiteral_of_afterString (isDelimiter_delimiterOf hc _) htail hrest] at hskip
  exact hskip

/-! ## Words and numbers -/

theorem ordinary_of_isNameChar (hc : isNameChar c = true) : Ordinary c :=
  ordinary_of rfl hc

/-- No word goes on here. -/
def EndsWord (py : Python) (cs : List Char) : Prop :=
  ∀ c, cs.head? = some c → c ∉ ['o', 't', '_'] ∧ py.isalnum c = false

theorem startsWord_of_endsWord (h : EndsWord py rest) :
    startsWord py ('n' :: 'o' :: 't' :: rest) ['n', 'o', 't'] = true := by
  cases rest with
  | nil => rfl
  | cons c rest =>
    obtain ⟨hmem, halnum⟩ := h c rfl
    have hunderscore : (c == '_') = false := by
      refine beq_eq_false_iff_ne.mpr ?_
      rintro rfl
      exact hmem (by decide)
    simp [startsWord, halnum, hunderscore]

/-- A word that ends where the text after it starts contains the `not` it starts. -/
theorem exists_of_startsWord {word : List Char} (hrest : EndsWord py rest)
    (h : startsWord py (word ++ rest) ['n', 'o', 't'] = true) (hword : word ≠ []) :
    ∃ more, word = 'n' :: 'o' :: 't' :: more := by
  rw [startsWord, Bool.and_eq_true] at h
  obtain ⟨more, hmore⟩ := List.isPrefixOf_iff_prefix.mp h.1
  have hstart : ∀ d l, rest = d :: l → d ≠ 'o' ∧ d ≠ 't' := by
    rintro d l rfl
    have hmem := (hrest d rfl).1
    refine ⟨?_, ?_⟩
    · rintro rfl
      exact hmem (by decide)
    · rintro rfl
      exact hmem (by decide)
  cases word with
  | nil => exact absurd rfl hword
  | cons a word =>
    injection hmore with ha hmore
    cases word with
    | nil => exact absurd rfl (hstart 'o' _ hmore.symm).1
    | cons b word =>
      injection hmore with hb hmore
      cases word with
      | nil => exact absurd rfl (hstart 't' _ hmore.symm).2
      | cons d word =>
        injection hmore with hd _
        exact ⟨word, by rw [← ha, ← hb, ← hd]⟩

/-- Past a word; past `not` the run has one operator more. -/
theorem Accepts.word {word : List Char} (hword : ∀ c ∈ word, isNameChar c = true)
    (hrest : EndsWord py rest) (h : Accepts py depth run (word ++ rest)) :
    ∃ run', Accepts py depth run' rest ∧
      (word = ['n', 'o', 't'] → run' = run + 1 ∧ run + 1 ≤ maxUnaryRun) := by
  induction hlength : word.length using Nat.strong_induction_on generalizing word run with
  | _ length ih => ?_
  cases word with
  | nil => exact ⟨run, h, fun heq => by cases heq⟩
  | cons c word =>
    cases hstarts : startsWord py (c :: (word ++ rest)) ['n', 'o', 't'] with
    | true =>
      obtain ⟨more, hmore⟩ := exists_of_startsWord hrest hstarts (List.cons_ne_nil c word)
      cases hmore
      obtain ⟨hrun, hnot⟩ := h.not hstarts
      cases more with
      | nil => exact ⟨run + 1, hnot, fun _ => ⟨rfl, hrun⟩⟩
      | cons d more =>
        obtain ⟨run', haccepts, -⟩ := ih (d :: more).length (by simp at hlength ⊢; omega)
          (fun e he => hword e (List.mem_cons_of_mem _ (List.mem_cons_of_mem _
            (List.mem_cons_of_mem _ he)))) hnot rfl
        exact ⟨run', haccepts, fun heq => by cases heq⟩
    | false =>
      have hnot : c :: word ≠ ['n', 'o', 't'] := by
        rintro heq
        cases heq
        rw [List.cons_append, List.cons_append, List.nil_append,
          startsWord_of_endsWord hrest] at hstarts
        cases hstarts
      have hordinary := ordinary_of_isNameChar (hword c List.mem_cons_self)
      have hmore : ∃ run', Accepts py depth run' (word ++ rest) := by
        rcases h.ordinary hordinary hstarts with ⟨-, h⟩ | ⟨-, h⟩
        · exact ⟨_, h⟩
        · exact ⟨_, h⟩
      obtain ⟨run', hmore⟩ := hmore
      obtain ⟨run'', haccepts, -⟩ := ih word.length (by simp at hlength; omega)
        (fun d hd => hword d (List.mem_cons_of_mem _ hd)) hmore rfl
      exact ⟨run'', haccepts, fun heq => absurd heq hnot⟩

/-- The characters of a number, its signs included. -/
def isNumberChar (c : Char) : Bool :=
  isHex c || c ∈ ['x', 'X', 'o', 'O', 'j', 'J', '.', '+', '-']

/-- A part of a number is behind. -/
def NumberPart (cs rest : List Char) : Prop :=
  ∃ part, cs = part ++ rest ∧ ∀ c ∈ part, isNumberChar c = true

theorem NumberPart.refl (cs : List Char) : NumberPart cs cs :=
  ⟨[], rfl, fun _ h => absurd h List.not_mem_nil⟩

theorem NumberPart.cons (hc : isNumberChar c = true) (h : NumberPart cs rest) :
    NumberPart (c :: cs) rest := by
  obtain ⟨part, rfl, hpart⟩ := h
  exact ⟨c :: part, rfl, List.forall_mem_cons.mpr ⟨hc, hpart⟩⟩

theorem NumberPart.trans {rest' : List Char} (h : NumberPart cs rest) (h' : NumberPart rest rest') :
    NumberPart cs rest' := by
  obtain ⟨part, rfl, hpart⟩ := h
  obtain ⟨part', rfl, hpart'⟩ := h'
  exact ⟨part ++ part', by rw [List.append_assoc], List.forall_mem_append.mpr ⟨hpart, hpart'⟩⟩

theorem numberPart_dropWhile {p : Char → Bool} (hp : ∀ c, p c = true → isNumberChar c = true)
    (cs : List Char) : NumberPart cs (cs.dropWhile p) :=
  ⟨cs.takeWhile p, List.takeWhile_append_dropWhile.symm,
    fun c hc => hp c (List.mem_takeWhile_imp hc)⟩

theorem isNumberChar_of_isHex (hc : isHex c = true) : isNumberChar c = true := by
  rw [isNumberChar, hc, Bool.true_or]

theorem isNumberChar_of_isDecimal (hc : isDecimal c = true) : isNumberChar c = true := by
  refine isNumberChar_of_isHex ?_
  rw [isHex, hc, Bool.true_or, Bool.true_or]

theorem numberPart_digits (cs : List Char) : NumberPart cs (cs.dropWhile isDecimal) :=
  numberPart_dropWhile (fun _ => isNumberChar_of_isDecimal) cs

theorem numberPart_fraction (cs : List Char) : NumberPart cs (afterFraction cs) := by
  unfold afterFraction
  split
  · exact (numberPart_digits _).cons rfl
  · exact .refl _

theorem numberPart_exponent (cs : List Char) : NumberPart cs (afterExponent cs) := by
  unfold afterExponent
  split
  · exact .refl _
  · rename_i e rest
    split
    · rename_i he
      have hnumber : isNumberChar e = true := by
        simp only [Bool.or_eq_true, beq_iff_eq] at he
        rcases he with rfl | rfl <;> rfl
      split
      · exact .refl _
      · rename_i sign digits
        split
        · rename_i hsign
          simp only [Bool.and_eq_true, Bool.or_eq_true, beq_iff_eq] at hsign
          have hsign' : isNumberChar sign = true := by
            rcases hsign.1 with rfl | rfl <;> rfl
          exact ((numberPart_digits digits).cons hsign').cons hnumber
        · split
          · exact (numberPart_digits _).cons hnumber
          · exact .refl _
    · exact .refl _

theorem numberPart_imaginary (cs : List Char) : NumberPart cs (afterImaginary cs) := by
  unfold afterImaginary
  split
  · exact .refl _
  · split
    · rename_i hj
      simp only [Bool.or_eq_true, beq_iff_eq] at hj
      rcases hj with rfl | rfl <;> exact (NumberPart.refl _).cons rfl
    · exact .refl _

theorem numberPart_decimal (cs : List Char) : NumberPart cs (afterDecimal cs) :=
  (((numberPart_digits cs).trans (numberPart_fraction _)).trans (numberPart_exponent _)).trans
    (numberPart_imaginary _)

theorem numberPart_afterNumber (cs : List Char) : NumberPart cs (afterNumber cs) := by
  unfold afterNumber
  split
  · rename_i x rest
    split
    · rename_i hx
      simp only [Bool.or_eq_true, beq_iff_eq] at hx
      have hhex := numberPart_dropWhile (fun _ => isNumberChar_of_isHex) rest
      rcases hx with rfl | rfl <;> exact (hhex.cons rfl).cons rfl
    · split
      · rename_i hx
        simp only [Bool.or_eq_true, beq_iff_eq] at hx
        rcases hx with ((rfl | rfl) | rfl) | rfl <;>
          exact ((numberPart_digits rest).cons rfl).cons rfl
      · exact numberPart_decimal _
  · exact numberPart_decimal _

/-- Past a number. -/
theorem Accepts.number {tail : List Char} (hpart : NumberPart cs rest)
    (h : Accepts py depth run (cs ++ tail)) : ∃ run', Accepts py depth run' (rest ++ tail) := by
  obtain ⟨part, rfl, hpart⟩ := hpart
  induction part generalizing run with
  | nil => exact ⟨run, h⟩
  | cons c part ih =>
    have hc := hpart c List.mem_cons_self
    have hmore := fun d hd => hpart d (List.mem_cons_of_mem _ hd)
    by_cases hsign : isUnaryChar c = true
    · exact ih hmore (h.sign hsign).2
    · have hkind : (isNumberChar c && !isUnaryChar c) = true := by
        rw [hc, Bool.eq_false_iff.mpr hsign]
        rfl
      have hordinary : Ordinary c :=
        ordinary_of (p := fun d => isNumberChar d && !isUnaryChar d) rfl hkind
      have hne : c ≠ 'n' := by
        rintro rfl
        cases hc
      rcases h.ordinary hordinary (startsWord_eq_false hne) with ⟨-, h⟩ | ⟨-, h⟩
      · exact ih hmore h
      · exact ih hmore h

/-! ## The text of an f-string -/

/-- The scan goes past what the tokenizer takes after a backslash. -/
theorem skipLiteral_afterBackslash {delimiter : List Char} (hdelimiter : IsDelimiter delimiter)
    (raw : Bool) (hcs : cs ≠ []) (tail : List Char) :
    skipLiteral delimiter ('\\' :: cs ++ tail) =
      skipLiteral delimiter ((afterBackslash raw cs).2 ++ tail) := by
  unfold afterBackslash
  split
  · exact skipLiteral_of_ne (c := '\n') hdelimiter rfl (by decide)
  · rename_i rest
    have hbrace : skipLiteral delimiter ('{' :: (rest ++ tail)) =
        skipLiteral delimiter (rest ++ tail) :=
      skipLiteral_of_ne hdelimiter rfl (by decide)
    exact hbrace.symm
  · rename_i rest
    have hbrace : skipLiteral delimiter ('}' :: (rest ++ tail)) =
        skipLiteral delimiter (rest ++ tail) :=
      skipLiteral_of_ne hdelimiter rfl (by decide)
    exact hbrace.symm
  · split
    · rfl
    · exact skipLiteral_of_ne (c := '{') hdelimiter rfl (by decide)
  · rfl
  · exact absurd rfl hcs

/-- An f-string without a field is a string to the scan. -/
theorem text_of_lex {fuel : Nat} {delimiter tail : List Char} {raw named : Bool} {ts : List PyToken}
    (hdelimiter : IsDelimiter delimiter) (htail : Blank tail)
    (h : lex fuel [.text delimiter raw named false] cs = some ts) (hfield : .fieldOpener ∉ ts) :
    ∃ fuel' rest ts', fuel' < fuel ∧ ts = .string :: ts' ∧ lex fuel' [] rest = some ts' ∧
      skipLiteral delimiter (cs ++ tail) = rest ++ tail := by
  induction fuel generalizing cs named with
  | zero => cases h
  | succ fuel ih =>
    -- The text goes on after as many characters as the scan skips.
    have hmore : ∀ {cs' : List Char} {named' : Bool},
        lex fuel [.text delimiter raw named' false] cs' = some ts →
        skipLiteral delimiter (cs ++ tail) = skipLiteral delimiter (cs' ++ tail) →
        ∃ fuel' rest ts', fuel' < fuel + 1 ∧ ts = .string :: ts' ∧ lex fuel' [] rest = some ts' ∧
          skipLiteral delimiter (cs ++ tail) = rest ++ tail := by
      intro cs' named' hlex hskip
      obtain ⟨fuel', rest, ts', hlt, hts, hrest, heq⟩ := ih hlex
      exact ⟨fuel', rest, ts', Nat.lt_succ_of_lt hlt, hts, hrest, hskip.trans heq⟩
    cases cs with
    | nil => cases h
    | cons c cs =>
      rw [lex] at h
      split at h
      · rename_i hquotes
        have hc : c ≠ '\\' := by
          rintro rfl
          exact hdelimiter.head_ne hquotes
        obtain ⟨ts', hlex, rfl⟩ := Option.map_eq_some_iff.mp h
        refine ⟨fuel, _, ts', Nat.lt_succ_self fuel, rfl, hlex, ?_⟩
        rw [List.cons_append, skipLiteral_cons hc, ← List.cons_append,
          isPrefixOf_append hdelimiter htail, if_pos hquotes, drop_append_of_isPrefixOf hquotes]
      · rename_i hquotes
        split at h
        · rename_i hc
          subst hc
          cases cs with
          | nil => cases fuel <;> cases h
          | cons d cs =>
            exact hmore h (skipLiteral_afterBackslash hdelimiter raw (List.cons_ne_nil d cs) tail)
        · rename_i hbackslash
          have hskip : skipLiteral delimiter (c :: cs ++ tail) =
              skipLiteral delimiter (cs ++ tail) := by
            rw [List.cons_append, skipLiteral_cons hbackslash, ← List.cons_append,
              isPrefixOf_append hdelimiter htail, if_neg hquotes]
          split at h
          · rename_i hc
            subst hc
            split at h
            · rename_i hdouble
              simp only [Bool.not_false, Bool.true_and, decide_eq_true_eq] at hdouble
              obtain ⟨cs, rfl⟩ := List.head?_eq_some_iff.mp hdouble
              refine hmore h (hskip.trans ?_)
              exact skipLiteral_of_ne (c := '{') hdelimiter rfl (by decide)
            · obtain ⟨ts', -, rfl⟩ := Option.map_eq_some_iff.mp h
              exact absurd List.mem_cons_self hfield
          · split at h
            · split at h
              · exact hmore h hskip
              · split at h
                · cases ‹false = true›
                · split at h
                  · rename_i hdouble
                    obtain ⟨cs, rfl⟩ := List.head?_eq_some_iff.mp hdouble
                    refine hmore h (hskip.trans ?_)
                    exact skipLiteral_of_ne (c := '}') hdelimiter rfl (by decide)
                  · cases h
            · split at h
              · cases h
              · exact hmore h hskip

end

/-! ## The whole text -/

namespace Tokenizer

/-- No f-string of the stream has a field, and no comment ends at a lone carriage return. -/
def Plain (ts : List PyToken) : Prop := .fieldOpener ∉ ts ∧ .comment true ∉ ts

/-- No comment and no continuation stands within a run that is longer than the limit. -/
def UnbrokenRuns (ts : List PyToken) : Prop :=
  Always (fun p => maxUnaryRun < p.run → p.unbroken = p.run) {} ts

/-- Brackets nest within the limit, and so many operators follow on one another. -/
def Bounded (p : Position) : Prop := p.depth ≤ maxNestingDepth ∧ p.unbroken ≤ maxUnaryRun

theorem Plain.tail (h : Plain (t :: ts)) : Plain ts :=
  ⟨fun hmem => h.1 (List.mem_cons_of_mem _ hmem), fun hmem => h.2 (List.mem_cons_of_mem _ hmem)⟩

theorem always_nil {P : Position → Prop} (h : P p) : Always P p [] := by
  intro before hbefore
  rw [List.prefix_nil.mp hbefore]
  exact h

theorem always_cons {P : Position → Prop} (h : P p) (hts : Always P (p.next t) ts) :
    Always P p (t :: ts) := by
  intro before hbefore
  rcases List.prefix_cons_iff.mp hbefore with rfl | ⟨before, rfl, hmore⟩
  · exact h
  · exact hts before hmore

/-- The scan is at a position: at its depth, in a run at least as long as what is unbroken. -/
structure ScannedTo (py : Python) (p : Position) (cs : List Char) : Prop where
  bounded : Bounded p
  accepts : ∃ run, p.unbroken ≤ run ∧ Accepts py p.depth run cs

section
variable {py : Python} {p : Position} {c : Char} {cs rest tail : List Char}

/-- Past an operand or a symbol. -/
theorem ScannedTo.reset {t : PyToken} (h : ScannedTo py p cs) (hdepth : (p.next t).depth = p.depth)
    (hunbroken : (p.next t).unbroken = 0) (haccepts : ∃ run, Accepts py p.depth run rest) :
    ScannedTo py (p.next t) rest := by
  obtain ⟨run, haccepts⟩ := haccepts
  refine ⟨⟨?_, ?_⟩, run, ?_, ?_⟩
  · rw [hdepth]
    exact h.bounded.1
  · rw [hunbroken]
    exact Nat.zero_le _
  · rw [hunbroken]
    exact Nat.zero_le _
  · rw [hdepth]
    exact haccepts

theorem Position.operator_depth (p : Position) : p.operator.depth = p.depth := by
  unfold Position.operator
  split <;> rfl

theorem Position.operator_unbroken_le (p : Position) : p.operator.unbroken ≤ p.unbroken + 1 := by
  unfold Position.operator
  split
  · exact Nat.zero_le _
  · exact Nat.le_refl _

/-- Past an operator that the scan counts. -/
theorem ScannedTo.operator {run : Nat} (h : ScannedTo py p cs) (hrun : p.unbroken ≤ run)
    (hcounted : run + 1 ≤ maxUnaryRun ∧ Accepts py p.depth (run + 1) rest) :
    ScannedTo py p.operator rest := by
  have hle := p.operator_unbroken_le
  refine ⟨⟨?_, by omega⟩, run + 1, by omega, ?_⟩
  · rw [p.operator_depth]
    exact h.bounded.1
  · rw [p.operator_depth]
    exact hcounted.2

/-- A word ends where the tokenizer ends it. -/
theorem endsWord_append (hpy : py.KnowsAlnum) (htail : Blank tail)
    (hcs : ∀ c, cs.head? = some c → isNameChar c = false) : EndsWord py (cs ++ tail) := by
  intro c hc
  cases cs with
  | nil =>
    have hspace : isspace c = true := htail c (List.mem_of_mem_head? hc)
    refine ⟨?_, hpy.space c hspace⟩
    rintro hmem
    simp only [List.mem_cons, List.not_mem_nil, or_false] at hmem
    rcases hmem with rfl | rfl | rfl <;> cases hspace
  | cons d cs =>
    cases hc
    have hname := hcs c rfl
    have hkind := hname
    rw [isNameChar, isNameStart, Bool.or_eq_false_iff, Bool.or_eq_false_iff,
      Bool.or_eq_false_iff] at hkind
    obtain ⟨⟨⟨hletter, -⟩, hascii⟩, hdigit⟩ := hkind
    refine ⟨?_, ?_⟩
    · intro hmem
      simp only [List.mem_cons, List.not_mem_nil, or_false] at hmem
      rcases hmem with rfl | rfl | rfl <;> cases hname
    · rw [hpy.ascii c (Nat.not_le.mp (of_decide_eq_false hascii)), hletter, hdigit]
      rfl

theorem head_dropWhile_isNameChar (cs : List Char) :
    ∀ c, (cs.dropWhile isNameChar).head? = some c → isNameChar c = false := by
  intro c hc
  have hhead := List.head?_dropWhile_not isNameChar cs
  rw [hc] at hhead
  simpa using hhead

/-- What the tokenizer passes over, the scan does. -/
theorem isspace_of_isBlank (hc : isBlank c = true) : isspace c = true := by
  rw [isBlank, isLineEnd] at hc
  simp only [Bool.or_eq_true, beq_iff_eq] at hc
  rcases hc with ((rfl | rfl) | rfl) | rfl | rfl <;> rfl

theorem isspace_of_isLineEnd (hc : isLineEnd c = true) : isspace c = true := by
  rw [isLineEnd, Bool.or_eq_true, beq_iff_eq, beq_iff_eq] at hc
  rcases hc with rfl | rfl <;> rfl

/-- A comment goes on to the end of its line. -/
theorem skipComment_eq (cs : List Char) : skipComment cs =
    skipComment (cs.dropWhile fun d => !isLineEnd d) := by
  induction cs with
  | nil => rfl
  | cons c cs ih =>
    rw [List.dropWhile_cons]
    split
    · rename_i hc
      have hne : c ≠ '\n' := by
        rintro rfl
        cases hc
      have hskip : skipComment (c :: cs) = skipComment cs := by
        rw [skipComment.eq_def]
        split
        · cases ‹c :: cs = []›
        · exact absurd (List.cons.inj ‹_›).1 hne
        · cases ‹c :: cs = _›
          rfl
      rw [hskip, ih]
    · rfl

/-- Past a comment that does not end at a lone carriage return. -/
theorem ScannedTo.comment (h : ScannedTo py p ('#' :: cs ++ tail))
    (hrest : cs.dropWhile (fun d => !isLineEnd d) = rest) (hreturn : loneReturn rest = false)
    (hne : rest ≠ []) : ScannedTo py (p.next (.comment false)) (rest ++ tail) := by
  obtain ⟨run, -, haccepts⟩ := h.accepts
  have hskip : Accepts py p.depth 0 (skipComment (cs ++ tail)) := Accepts.comment haccepts
  rw [skipComment_eq, List.dropWhile_append, hrest,
    if_neg (by rw [List.isEmpty_iff]; exact hne)] at hskip
  refine ⟨⟨h.bounded.1, Nat.zero_le _⟩, 0, Nat.le_refl _, ?_⟩
  obtain ⟨c, rest, rfl⟩ := List.exists_cons_of_ne_nil hne
  have hline : isLineEnd c = true := by
    have hhead := List.head?_dropWhile_not (fun d => !isLineEnd d) cs
    rw [hrest] at hhead
    simpa using hhead
  rw [isLineEnd, Bool.or_eq_true, beq_iff_eq, beq_iff_eq] at hline
  rcases hline with rfl | rfl
  · exact (accepts_space_iff rfl).mpr hskip
  · cases rest with
    | nil => cases hreturn
    | cons d rest =>
      by_cases hd : d = '\n'
      · subst hd
        exact (accepts_space_iff rfl).mpr ((accepts_space_iff rfl).mpr hskip)
      · have hlone : loneReturn ('\r' :: d :: rest) = true := by
          unfold loneReturn
          split
          · rename_i heq
            injection heq with _ heq
            injection heq with heq _
            exact absurd heq hd
          · rfl
          · rename_i hother
            exact absurd rfl (hother _)
        rw [hlone] at hreturn
        cases hreturn

/-- Past a continuation. -/
theorem ScannedTo.continuation (h : ScannedTo py p ('\\' :: c :: cs)) (hc : isLineEnd c = true) :
    ScannedTo py (p.next .continuation) cs := by
  obtain ⟨run, -, haccepts⟩ := h.accepts
  have hordinary : Ordinary '\\' := ⟨rfl, by decide, rfl, rfl, rfl⟩
  refine ⟨⟨h.bounded.1, Nat.zero_le _⟩, 0, Nat.le_refl _, ?_⟩
  rcases haccepts.ordinary hordinary (startsWord_eq_false (by decide)) with ⟨hspace, -⟩ | ⟨-, hmore⟩
  · cases hspace
  · exact (accepts_space_iff (isspace_of_isLineEnd hc)).mp hmore

/-- Past a word that is not the prefix of a string. -/
theorem ScannedTo.word {word : List Char} (h : ScannedTo py p (word ++ rest))
    (hword : ∀ c ∈ word, isNameChar c = true) (hrest : EndsWord py rest) :
    ScannedTo py (p.next (.word (String.ofList word))) rest := by
  obtain ⟨run, hrun, haccepts⟩ := h.accepts
  obtain ⟨run', hmore, hnot⟩ := haccepts.word hword hrest
  by_cases heq : word = ['n', 'o', 't']
  · obtain ⟨rfl, hcounted⟩ := hnot heq
    have hnext : p.next (.word (String.ofList word)) = p.operator := by
      rw [heq]
      rfl
    rw [hnext]
    exact h.operator hrun ⟨hcounted, hmore⟩
  · have hnext : p.next (.word (String.ofList word)) =
        { depth := p.depth, operand := isOperandWord (String.ofList word) } := by
      refine if_neg fun hstring => heq ?_
      rw [← String.toList_ofList (l := word), hstring]
      rfl
    refine h.reset ?_ ?_ ⟨run', hmore⟩ <;> rw [hnext]

/-- Past another operator. -/
theorem ScannedTo.symbol (h : ScannedTo py p (c :: cs)) (hc : c ∈ symbols) :
    ScannedTo py (p.next .symbol) cs := by
  obtain ⟨run, -, haccepts⟩ := h.accepts
  have hordinary : Ordinary c :=
    ordinary_of (p := fun d => d ∈ symbols) rfl (decide_eq_true hc)
  have hne : c ≠ 'n' := by
    rintro rfl
    revert hc
    decide
  refine h.reset rfl rfl ?_
  rcases haccepts.ordinary hordinary (startsWord_eq_false hne) with ⟨-, hmore⟩ | ⟨-, hmore⟩
  · exact ⟨_, hmore⟩
  · exact ⟨_, hmore⟩

/-- What the scan lets through stays within the limits. -/
theorem always_bounded (hpy : py.KnowsAlnum) (htail : Blank tail) {fuel : Nat}
    (hlex : lex fuel [] cs = some ts) (hplain : Plain ts) (h : ScannedTo py p (cs ++ tail)) :
    Always Bounded p ts := by
  induction fuel using Nat.strong_induction_on generalizing cs ts p with
  | _ fuel ih => ?_
  cases fuel with
  | zero => cases hlex
  | succ fuel =>
    have hnext : ∀ {cs ts p}, lex fuel [] cs = some ts → Plain ts → ScannedTo py p (cs ++ tail) →
        Always Bounded p ts := fun hlex hplain h => ih fuel (Nat.lt_succ_self fuel) hlex hplain h
    obtain ⟨run, hrun, haccepts⟩ := h.accepts
    cases cs with
    | nil =>
      cases hlex
      exact always_nil h.bounded
    | cons c cs =>
      rw [lex] at hlex
      · split at hlex
        · -- White space
          rename_i hblank
          refine hnext hlex hplain ⟨h.bounded, run, hrun, ?_⟩
          exact (accepts_space_iff (isspace_of_isBlank hblank)).mp haccepts
        · rename_i hblank
          split at hlex
          · -- A comment
            rename_i hcomment
            subst hcomment
            obtain ⟨ts', hmore, rfl⟩ := Option.map_eq_some_iff.mp hlex
            have hreturn : loneReturn (cs.dropWhile fun d => !isLineEnd d) = false := by
              refine Bool.eq_false_iff.mpr fun hlone => hplain.2 ?_
              rw [← hlone]
              exact List.mem_cons_self
            rw [hreturn]
            by_cases hempty : (cs.dropWhile fun d => !isLineEnd d) = []
            · rw [hempty] at hmore
              have hts : ts' = [] := by
                cases fuel with
                | zero => cases hmore
                | succ fuel =>
                  cases hmore
                  rfl
              rw [hts]
              exact always_cons h.bounded (always_nil ⟨h.bounded.1, Nat.zero_le _⟩)
            · rw [hreturn] at hplain
              refine always_cons h.bounded (hnext hmore hplain.tail ?_)
              exact ScannedTo.comment h rfl hreturn hempty
          · rename_i hcomment
            split at hlex
            · -- A continuation
              rename_i hbackslash
              subst hbackslash
              split at hlex
              · rename_i hline
                obtain ⟨ts', hmore, rfl⟩ := Option.map_eq_some_iff.mp hlex
                refine always_cons h.bounded (hnext hmore hplain.tail ?_)
                cases cs with
                | nil => cases hline
                | cons d cs => exact h.continuation hline
              · cases hlex
            · rename_i hbackslash
              split at hlex
              · -- A string
                rename_i hquote
                obtain ⟨rest, hrest, hlex⟩ := Option.bind_eq_some_iff.mp hlex
                obtain ⟨ts', hmore, rfl⟩ := Option.map_eq_some_iff.mp hlex
                refine always_cons h.bounded (hnext hmore hplain.tail ?_)
                exact h.reset rfl rfl ⟨0, haccepts.string hquote htail hrest⟩
              · rename_i hquote
                split at hlex
                · -- A word, or a string with a prefix
                  rename_i hname
                  have hsplit :
                      c :: cs = (c :: cs.takeWhile isNameChar) ++ cs.dropWhile isNameChar := by
                    rw [List.cons_append, List.takeWhile_append_dropWhile]
                  have hword : ∀ d ∈ c :: cs.takeWhile isNameChar, isNameChar d = true := by
                    refine List.forall_mem_cons.mpr ⟨?_, fun d hd => List.mem_takeWhile_imp hd⟩
                    rw [isNameChar, hname, Bool.true_or]
                  have hends : EndsWord py (cs.dropWhile isNameChar ++ tail) :=
                    endsWord_append hpy htail (head_dropWhile_isNameChar cs)
                  rw [hsplit, List.append_assoc] at h haccepts
                  obtain ⟨run', hafter, -⟩ := haccepts.word hword hends
                  dsimp only at hlex
                  split at hlex
                  · rename_i hquotes
                    rw [Bool.and_eq_true] at hquotes
                    have hquote := hquotes.1
                    cases hrest : cs.dropWhile isNameChar with
                    | nil =>
                      rw [hrest] at hquote
                      cases hquote
                    | cons quote rest =>
                      rw [hrest] at hafter
                      simp only [hrest, List.headD_cons] at hlex hquote
                      have hskip :
                          Accepts py p.depth 0 (skipString quote (quote :: rest ++ tail)) :=
                        Accepts.quote hquote hafter
                      split at hlex
                      · -- An f-string
                        obtain ⟨fuel', rest', ts', hlt, rfl, hmore, heq⟩ :=
                          text_of_lex (isDelimiter_delimiterOf hquote (quote :: rest)) htail hlex
                            hplain.1
                        rw [skipString_eq, delimiterOf_append hquote htail,
                          drop_delimiterOf_append, heq] at hskip
                        refine always_cons h.bounded ?_
                        exact ih fuel' (Nat.lt_succ_of_lt hlt) hmore hplain.tail
                          (h.reset rfl rfl ⟨0, hskip⟩)
                      · obtain ⟨rest', hrest', hlex⟩ := Option.bind_eq_some_iff.mp hlex
                        obtain ⟨ts', hmore, rfl⟩ := Option.map_eq_some_iff.mp hlex
                        refine always_cons h.bounded (hnext hmore hplain.tail ?_)
                        exact h.reset rfl rfl ⟨0, Accepts.string hquote htail hrest' hafter⟩
                  · obtain ⟨ts', hmore, rfl⟩ := Option.map_eq_some_iff.mp hlex
                    exact always_cons h.bounded (hnext hmore hplain.tail (h.word hword hends))
                · rename_i hname
                  split at hlex
                  · -- A number
                    obtain ⟨ts', hmore, rfl⟩ := Option.map_eq_some_iff.mp hlex
                    refine always_cons h.bounded (hnext hmore hplain.tail ?_)
                    exact h.reset rfl rfl (haccepts.number (numberPart_afterNumber _))
                  · rename_i hnumber
                    split at hlex
                    · -- An opening bracket
                      rename_i hopener
                      obtain ⟨ts', hmore, rfl⟩ := Option.map_eq_some_iff.mp hlex
                      obtain ⟨hdepth, hopened⟩ := haccepts.opener hopener
                      refine always_cons h.bounded (hnext hmore hplain.tail ?_)
                      exact ⟨⟨hdepth, Nat.zero_le _⟩, 0, Nat.le_refl _, hopened⟩
                    · rename_i hopener
                      split at hlex
                      · -- A closing bracket
                        rename_i hcloser
                        obtain ⟨ts', hmore, rfl⟩ := Option.map_eq_some_iff.mp hlex
                        refine always_cons h.bounded (hnext hmore hplain.tail ?_)
                        exact ⟨⟨(Nat.sub_le _ _).trans h.bounded.1, Nat.zero_le _⟩, 0,
                          Nat.le_refl _, haccepts.closer hcloser⟩
                      · rename_i hcloser
                        split at hlex
                        · -- A sign
                          rename_i hsign
                          obtain ⟨ts', hmore, rfl⟩ := Option.map_eq_some_iff.mp hlex
                          refine always_cons h.bounded (hnext hmore hplain.tail ?_)
                          exact h.operator hrun (haccepts.sign hsign)
                        · rename_i hsign
                          split at hlex
                          · -- Another operator
                            rename_i hsymbol
                            obtain ⟨ts', hmore, rfl⟩ := Option.map_eq_some_iff.mp hlex
                            exact always_cons h.bounded (hnext hmore hplain.tail (h.symbol hsymbol))
                          · cases hlex
      · intro delimiter raw named format stack hstack
        cases hstack

end

/-- What `strip` takes off is white space. -/
theorem exists_toList_strip (source : String) : ∃ lead trail, Blank lead ∧ Blank trail ∧
    source.toList = lead ++ ((strip source).toList ++ trail) := by
  have htrail := List.takeWhile_append_dropWhile (p := isspace)
    (l := (source.toList.dropWhile isspace).reverse)
  refine ⟨source.toList.takeWhile isspace,
    ((source.toList.dropWhile isspace).reverse.takeWhile isspace).reverse,
    fun c hc => List.mem_takeWhile_imp hc,
    fun c hc => List.mem_takeWhile_imp (List.mem_reverse.mp hc), ?_⟩
  rw [strip, String.toList_ofList, ← List.reverse_append, htrail, List.reverse_reverse,
    List.takeWhile_append_dropWhile]

/-- A text that the guards let through, as Python's tokenizer reads it. -/
theorem scannedTo_of_guardSource {py : Python} {source guarded : String}
    (hguard : guardSource py source = .ok guarded) :
    ∃ tail, Blank tail ∧ ScannedTo py {} (guarded.toList ++ tail) := by
  have hscan : scan py 0 0 source.length source.toList = .ok () := by
    simp only [guardSource] at hguard
    split at hguard
    · cases hguard
    · split at hguard
      · cases hguard
      · obtain ⟨⟨⟩, hscan, -⟩ := bind_eq_ok.mp hguard
        exact hscan
  obtain ⟨lead, trail, hlead, htrail, hsource⟩ := exists_toList_strip source
  rw [← guardSource_eq_ok hguard] at hsource
  have haccepts : Accepts py 0 0 source.toList := .intro (Nat.le_of_eq String.length_toList) hscan
  rw [hsource] at haccepts
  exact ⟨trail, htrail, ⟨Nat.zero_le _, Nat.zero_le _⟩, 0, Nat.le_refl _,
    (accepts_spaces_iff hlead).mp haccepts⟩

/-- Of a text that the guards let through, whose f-strings have no field and whose comments end at
line feeds, the token stream keeps within the limits exactly when no comment and no continuation
breaks a run that is longer than they allow. -/
theorem guard_bounds_iff {py : Python} {source guarded : String} {ts : List PyToken}
    (hpy : py.KnowsAlnum) (hguard : guardSource py source = .ok guarded)
    (hts : tokens guarded = some ts) (hplain : Plain ts) : WithinLimits ts ↔ UnbrokenRuns ts := by
  obtain ⟨tail, htail, hscanned⟩ := scannedTo_of_guardSource hguard
  have hbounded := always_bounded hpy htail hts hplain hscanned
  constructor
  · intro hlimits before hbefore hlong
    exact absurd (hlimits before hbefore).2 (Nat.not_le.mpr hlong)
  · intro hunbroken before hbefore
    refine ⟨(hbounded before hbefore).1, Nat.not_lt.mp fun hlong => ?_⟩
    have hrun := (hbounded before hbefore).2
    rw [hunbroken before hbefore hlong] at hrun
    exact Nat.not_le.mpr hlong hrun

/-- A run of as many minus signs before a name. -/
def minuses : Nat → Node
  | 0 => .name "x"
  | n + 1 => .unaryOp .uSub (minuses n)

/-- The runtime that reads one text as minus signs before a name. -/
def readingMinuses (text : String) (n : Nat) : Python := .reading text (minuses n)

theorem knowsAlnum_readingMinuses (text : String) (n : Nat) :
    (readingMinuses text n).KnowsAlnum where
  ascii c hc := by
    have hascii : ∀ n < 128, (Char.ofNat n).isAlphanum =
        (RuleValidator.isAsciiLetter (Char.ofNat n) || (Char.ofNat n).isDigit) := by decide
    have hc := hascii c.toNat hc
    rwa [Char.ofNat_toNat] at hc
  space c hc := by
    have hspaces : ∀ n ∈ [0x09, 0x0a, 0x0b, 0x0c, 0x0d, 0x1c, 0x1d, 0x1e, 0x1f, 0x20, 0x85, 0xa0,
        0x1680, 0x2000, 0x2001, 0x2002, 0x2003, 0x2004, 0x2005, 0x2006, 0x2007, 0x2008, 0x2009,
        0x200a, 0x2028, 0x2029, 0x202f, 0x205f, 0x3000], (Char.ofNat n).isAlphanum = false := by
      decide
    have hc := hspaces c.toNat (of_decide_eq_true hc)
    rwa [Char.ofNat_toNat] at hc

def pairText : String := "(--#\n-x)"

theorem guard_bounds_pair :
    ∃ ts, tokens pairText = some ts ∧ (WithinLimits ts ↔ UnbrokenRuns ts) :=
  ⟨_, rfl, guard_bounds_iff (knowsAlnum_readingMinuses pairText 3)
    (show guardSource _ pairText = .ok pairText from rfl) rfl ⟨by decide, by decide⟩⟩

def brokenText : String := "(-#\n-#\n-#\n-#\n-#\n-#\nx)"

/-- A comment after each sign lets a run of six through. -/
theorem broken_run_accepted : ¬ ∀ (py : Python) (source guarded : String) (body : Node)
    (ts : List PyToken), py.KnowsAlnum → guardSource py source = .ok guarded →
      py.astParse guarded = .tree body → tokens guarded = some ts → WithinLimits ts := by
  intro h
  have hlimits := h (readingMinuses brokenText 6) brokenText brokenText (minuses 6) _
    (knowsAlnum_readingMinuses brokenText 6) rfl rfl rfl
  have hrun := (hlimits _ (List.take_prefix 13 _)).2
  revert hrun
  decide

end Tokenizer

end ComplyLayer
