import ComplyLayer.Theory.Parsing
import Mathlib.Data.Fintype.Basic

/-!
# JSON text

Documents and their compact text, with everything but printable ASCII escaped. A document is the
only one with its text (`print_injective`): `Delimited` says of one encoding that what is written
can be told from what follows, and every part of the text has a rule for it.
-/

namespace ComplyLayer.Theory

/-! ## Encodings that end where a delimiter follows -/

section
variable {τ α β : Type}

/-- Before a delimiter, `write a` is written for nothing but `a`. -/
def Delimited (delim : τ → Prop) (write : α → List τ) (a : α) : Prop :=
  ∀ b rest rest', Follows delim rest → Follows delim rest' →
    write a ++ rest = write b ++ rest' → a = b ∧ rest = rest'

/-- Two lists of tokens that go on as long as `p` holds. -/
theorem append_inj_of_follows {p : τ → Bool} {ts us rest rest' : List τ}
    (hts : ∀ t ∈ ts, p t = true) (hus : ∀ t ∈ us, p t = true)
    (hrest : Follows (fun t => p t = false) rest) (hrest' : Follows (fun t => p t = false) rest')
    (h : ts ++ rest = us ++ rest') : ts = us ∧ rest = rest' := by
  have htake := congrArg (List.takeWhile p) h
  rw [takeWhile_append_follows hts hrest, takeWhile_append_follows hus hrest'] at htake
  subst htake
  exact ⟨rfl, List.append_cancel_left h⟩

theorem Delimited.eq {delim : τ → Prop} {write : α → List τ} (h : Delimited delim write a)
    (heq : write a = write b) : a = b := by
  have hrest := congrArg (· ++ []) heq
  exact (h b [] [] follows_nil follows_nil hrest).1

variable {delim : τ → Prop} {sep close : τ} {write : α → List τ} {as bs : List α}

theorem follows_afterSep (hsep : delim sep) (hclose : delim close) (tss : List (List τ))
    (rest : List τ) : Follows delim (Parser.afterSep sep tss ++ close :: rest) := by
  cases tss with
  | nil => exact follows_cons hclose _
  | cons ts tss => exact follows_cons hsep _

/-- The items of a list after the first. -/
theorem afterSep_inj (hsep : delim sep) (hclose : delim close) (hne : sep ≠ close)
    (h : ∀ a ∈ as, Delimited delim write a)
    (heq : Parser.afterSep sep (as.map write) ++ close :: rest =
      Parser.afterSep sep (bs.map write) ++ close :: rest') : as = bs ∧ rest = rest' := by
  induction as generalizing bs with
  | nil =>
    cases bs with
    | nil => exact ⟨rfl, (List.cons.inj heq).2⟩
    | cons b bs => exact absurd (List.cons.inj heq).1.symm hne
  | cons a as ih =>
    cases bs with
    | nil => exact absurd (List.cons.inj heq).1 hne
    | cons b bs =>
      obtain ⟨ha, has⟩ := List.forall_mem_cons.mp h
      have htail : write a ++ (Parser.afterSep sep (as.map write) ++ close :: rest) =
          write b ++ (Parser.afterSep sep (bs.map write) ++ close :: rest') := by
        rw [← List.append_assoc, ← List.append_assoc]
        exact (List.cons.inj heq).2
      obtain ⟨rfl, hmore⟩ := ha b _ _ (follows_afterSep hsep hclose _ _)
        (follows_afterSep hsep hclose _ _) htail
      obtain ⟨rfl, hrest⟩ := ih has hmore
      exact ⟨rfl, hrest⟩

/-- A list with a separator between its items and a closing token after them. -/
theorem separated_inj (hsep : delim sep) (hclose : delim close) (hne : sep ≠ close)
    (h : ∀ a ∈ as, Delimited delim write a) (hopen : ∀ a, ∃ t ts, write a = t :: ts ∧ t ≠ close)
    (heq : Parser.separated sep (as.map write) ++ close :: rest =
      Parser.separated sep (bs.map write) ++ close :: rest') : as = bs ∧ rest = rest' := by
  cases as with
  | nil =>
    cases bs with
    | nil => exact ⟨rfl, (List.cons.inj heq).2⟩
    | cons b bs =>
      obtain ⟨t, ts, ht, hnot⟩ := hopen b
      rw [List.map_cons, Parser.separated, ht] at heq
      exact absurd (List.cons.inj heq).1.symm hnot
  | cons a as =>
    cases bs with
    | nil =>
      obtain ⟨t, ts, ht, hnot⟩ := hopen a
      rw [List.map_cons, Parser.separated, ht] at heq
      exact absurd (List.cons.inj heq).1 hnot
    | cons b bs =>
      obtain ⟨ha, has⟩ := List.forall_mem_cons.mp h
      rw [List.map_cons, List.map_cons, Parser.separated, Parser.separated, List.append_assoc,
        List.append_assoc] at heq
      obtain ⟨rfl, htail⟩ := ha b _ _ (follows_afterSep hsep hclose _ _)
        (follows_afterSep hsep hclose _ _) heq
      obtain ⟨rfl, hrest⟩ := afterSep_inj hsep hclose hne has htail
      exact ⟨rfl, hrest⟩

end

/-! ## Documents -/

/-- The characters of numbers. -/
def isNumberChar (c : Char) : Bool := c.isDigit || c == '-' || c == '+' || c == '.' || c == 'e'

/-- A number, as it is written. -/
@[ext] structure JsonNumber where
  text : List Char
  ne_nil : text ≠ []
  isNumber : ∀ c ∈ text, isNumberChar c = true

inductive Json where
  | null
  | bool (b : Bool)
  | number (n : JsonNumber)
  | string (s : String)
  | array (items : List Json)
  | object (entries : List (String × Json))

namespace Json

/-- The characters with an escape of their own. -/
def shortEscapes : List (Char × Char) :=
  [('"', '"'), ('\\', '\\'), ('\n', 'n'), ('\r', 'r'), ('\t', 't'), ('\x0c', 'f'), ('\x08', 'b')]

def hex4 (n : Nat) : List Char :=
  [n / 4096, n / 256, n / 16, n].map fun d => Nat.digitChar (d % 16)

/-- One UTF-16 code unit. -/
def codeUnit (n : Nat) : List Char := '\\' :: 'u' :: hex4 n

/-- A code point outside of ASCII, as one code unit or two. -/
def codePoint (n : Nat) : List Char :=
  if n < 0x10000 then codeUnit n
  else codeUnit (0xd800 + (n - 0x10000) / 0x400) ++ codeUnit (0xdc00 + (n - 0x10000) % 0x400)

def escape (c : Char) : List Char :=
  match shortEscapes.lookup c with
  | some d => ['\\', d]
  | none => if ' ' ≤ c ∧ c ≤ '~' then [c] else codePoint c.toNat

def quote (s : String) : List Char := '"' :: (s.toList.flatMap escape ++ ['"'])

mutual
/-- The text of a document, without spaces. -/
def print : Json → List Char
  | null => ['n', 'u', 'l', 'l']
  | bool true => ['t', 'r', 'u', 'e']
  | bool false => ['f', 'a', 'l', 's', 'e']
  | number n => n.text
  | string s => quote s
  | array items => '[' :: (Parser.separated ',' (printItems items) ++ [']'])
  | object entries => '{' :: (Parser.separated ',' (printEntries entries) ++ ['}'])

def printItems : List Json → List (List Char)
  | [] => []
  | item :: items => item.print :: printItems items

def printEntries : List (String × Json) → List (List Char)
  | [] => []
  | (key, value) :: entries => (quote key ++ ':' :: value.print) :: printEntries entries
end

def printEntry (entry : String × Json) : List Char := quote entry.1 ++ ':' :: entry.2.print

theorem printItems_eq (items : List Json) : printItems items = items.map print := by
  induction items with
  | nil => rfl
  | cons item items ih => rw [printItems, ih, List.map_cons]

theorem printEntries_eq (entries : List (String × Json)) :
    printEntries entries = entries.map printEntry := by
  induction entries with
  | nil => rfl
  | cons entry entries ih => rw [printEntries, ih, List.map_cons, printEntry]

/-- Induction on a document: what holds of one whenever it holds of the documents right below it
holds of every document. -/
theorem induction {motive : Json → Prop} (null : motive null) (bool : ∀ b, motive (bool b))
    (number : ∀ n, motive (number n)) (string : ∀ s, motive (string s))
    (array : ∀ items, (∀ item ∈ items, motive item) → motive (array items))
    (object : ∀ entries, (∀ entry ∈ entries, motive entry.2) → motive (object entries))
    (j : Json) : motive j := by
  refine @Json.rec motive (fun items => ∀ item ∈ items, motive item)
    (fun entries => ∀ entry ∈ entries, motive entry.2) (fun entry => motive entry.2)
    null bool number string array object ?_ ?_ ?_ ?_ (fun _ _ h => h) j
  · exact fun _ h => absurd h List.not_mem_nil
  · exact fun _ _ h hs => List.forall_mem_cons.mpr ⟨h, hs⟩
  · exact fun _ h => absurd h List.not_mem_nil
  · exact fun _ _ h hs => List.forall_mem_cons.mpr ⟨h, hs⟩

/-! ### Strings -/

theorem digitChar_inj (hn : n < 16) (hm : m < 16) (h : Nat.digitChar n = Nat.digitChar m) :
    n = m := by
  have hall : ∀ a b : Fin 16, Nat.digitChar a = Nat.digitChar b → a = b := by decide
  exact congrArg Fin.val (hall ⟨n, hn⟩ ⟨m, hm⟩ h)

theorem hex4_inj (h : hex4 n ++ rest = hex4 m ++ rest') : n % 65536 = m % 65536 ∧ rest = rest' := by
  have hdigit {a b : Nat} (h : Nat.digitChar (a % 16) = Nat.digitChar (b % 16)) : a % 16 = b % 16 :=
    digitChar_inj (Nat.mod_lt _ (by decide)) (Nat.mod_lt _ (by decide)) h
  simp only [hex4, List.map_cons, List.map_nil, List.cons_append, List.nil_append,
    List.cons.injEq] at h
  obtain ⟨h₃, h₂, h₁, h₀, hrest⟩ := h
  have h₃ := hdigit h₃
  have h₂ := hdigit h₂
  have h₁ := hdigit h₁
  have h₀ := hdigit h₀
  exact ⟨by omega, hrest⟩

theorem codeUnit_inj (h : codeUnit n ++ rest = codeUnit m ++ rest') :
    n % 65536 = m % 65536 ∧ rest = rest' :=
  hex4_inj (List.cons.inj (List.cons.inj h).2).2

/-- No code point is a surrogate, so the first code unit tells one from two. -/
theorem codePoint_inj (hn : n.isValidChar) (hm : m.isValidChar)
    (h : codePoint n ++ rest = codePoint m ++ rest') : n = m ∧ rest = rest' := by
  unfold Nat.isValidChar at hn hm
  unfold codePoint at h
  split at h
  · split at h
    · obtain ⟨heq, hrest⟩ := codeUnit_inj h
      exact ⟨by omega, hrest⟩
    · rw [List.append_assoc] at h
      have heq := (codeUnit_inj h).1
      omega
  · split at h
    · rw [List.append_assoc] at h
      have heq := (codeUnit_inj h).1
      omega
    · rw [List.append_assoc, List.append_assoc] at h
      obtain ⟨hhigh, h⟩ := codeUnit_inj h
      obtain ⟨hlow, hrest⟩ := codeUnit_inj h
      exact ⟨by omega, hrest⟩

theorem codePoint_cons (n : Nat) : ∃ cs, codePoint n = '\\' :: 'u' :: cs := by
  unfold codePoint
  split <;> exact ⟨_, rfl⟩

/-- What a character is written as. -/
theorem escape_cases (c : Char) :
    (∃ d, (c, d) ∈ shortEscapes ∧ escape c = ['\\', d]) ∨
      (c ≠ '"' ∧ c ≠ '\\') ∧ (escape c = [c] ∨ escape c = codePoint c.toNat) := by
  unfold escape
  cases h : shortEscapes.lookup c with
  | some d =>
    left
    obtain ⟨before, after, hlist, -⟩ := List.lookup_eq_some_iff.mp h
    refine ⟨d, ?_, rfl⟩
    rw [hlist]
    exact List.mem_append_right _ List.mem_cons_self
  | none =>
    right
    refine ⟨⟨?_, ?_⟩, ?_⟩
    · rintro rfl
      cases h
    · rintro rfl
      cases h
    · by_cases hprintable : ' ' ≤ c ∧ c ≤ '~'
      · exact .inl (if_pos hprintable)
      · exact .inr (if_neg hprintable)

theorem escape_inj (h : escape c ++ rest = escape d ++ rest') : c = d ∧ rest = rest' := by
  have hnotU : 'u' ∉ shortEscapes.map Prod.snd := by decide
  have hu {c : Char} : (c, 'u') ∉ shortEscapes := fun hmem => hnotU (List.mem_map_of_mem hmem)
  obtain ⟨cs, hcs⟩ := codePoint_cons c.toNat
  obtain ⟨ds, hds⟩ := codePoint_cons d.toNat
  rcases escape_cases c with ⟨e, he, hc⟩ | ⟨hplain, hc | hc⟩ <;>
    rcases escape_cases d with ⟨e', he', hd⟩ | ⟨hplain', hd | hd⟩ <;> rw [hc, hd] at h
  · simp only [List.cons_append, List.nil_append, List.cons.injEq, true_and] at h
    have hnodup : (shortEscapes.map Prod.snd).Nodup := by decide
    have hpair := List.inj_on_of_nodup_map hnodup he he' h.1
    exact ⟨congrArg Prod.fst hpair, h.2⟩
  · exact absurd (List.cons.inj h).1.symm hplain'.2
  · rw [hds] at h
    cases (List.cons.inj (List.cons.inj h).2).1
    exact absurd he hu
  · exact absurd (List.cons.inj h).1 hplain.2
  · exact List.cons.inj h
  · rw [hds] at h
    exact absurd (List.cons.inj h).1 hplain.2
  · rw [hcs] at h
    cases (List.cons.inj (List.cons.inj h).2).1
    exact absurd he' hu
  · rw [hcs] at h
    exact absurd (List.cons.inj h).1.symm hplain'.2
  · obtain ⟨heq, hrest⟩ := codePoint_inj c.valid d.valid h
    exact ⟨Char.toNat_inj.mp heq, hrest⟩

theorem escape_ne_quote (c : Char) : ∃ d ds, escape c = d :: ds ∧ d ≠ '"' := by
  rcases escape_cases c with ⟨e, -, hc⟩ | ⟨hplain, hc | hc⟩
  · exact ⟨_, _, hc, by decide⟩
  · exact ⟨_, _, hc, hplain.1⟩
  · obtain ⟨cs, hcs⟩ := codePoint_cons c.toNat
    exact ⟨_, _, hc.trans hcs, by decide⟩

theorem escapes_inj {cs ds : List Char}
    (h : cs.flatMap escape ++ '"' :: rest = ds.flatMap escape ++ '"' :: rest') :
    cs = ds ∧ rest = rest' := by
  induction cs generalizing ds with
  | nil =>
    cases ds with
    | nil => exact ⟨rfl, (List.cons.inj h).2⟩
    | cons d ds =>
      obtain ⟨e, es, heq, hne⟩ := escape_ne_quote d
      rw [List.flatMap_cons, heq] at h
      exact absurd (List.cons.inj h).1.symm hne
  | cons c cs ih =>
    cases ds with
    | nil =>
      obtain ⟨e, es, heq, hne⟩ := escape_ne_quote c
      rw [List.flatMap_cons, heq] at h
      exact absurd (List.cons.inj h).1 hne
    | cons d ds =>
      rw [List.flatMap_cons, List.flatMap_cons, List.append_assoc, List.append_assoc] at h
      obtain ⟨rfl, hmore⟩ := escape_inj h
      obtain ⟨rfl, hrest⟩ := ih hmore
      exact ⟨rfl, hrest⟩

theorem quote_inj (h : quote s ++ rest = quote t ++ rest') : s = t ∧ rest = rest' := by
  rw [quote, quote, List.cons_append, List.cons_append, List.append_assoc, List.append_assoc] at h
  obtain ⟨heq, hrest⟩ := escapes_inj (List.cons.inj h).2
  exact ⟨String.toList_injective heq, hrest⟩

/-! ### Documents -/

/-- What can come after a document inside of another. -/
def isDelimiter (c : Char) : Prop := c = ',' ∨ c = ']' ∨ c = '}'

theorem isNumberChar_of_isDelimiter {c : Char} (h : isDelimiter c) : isNumberChar c = false := by
  rcases h with rfl | rfl | rfl <;> rfl

theorem number_cons (n : JsonNumber) :
    ∃ c cs, n.text = c :: cs ∧ isNumberChar c = true := by
  obtain ⟨c, cs, heq⟩ := List.exists_cons_of_ne_nil n.ne_nil
  exact ⟨c, cs, heq, n.isNumber c (heq ▸ List.mem_cons_self)⟩

/-- What a document starts with tells a number from everything else, and any document from the
end of a list. -/
theorem print_cons (j : Json) : ∃ c cs, j.print = c :: cs ∧ ¬ isDelimiter c ∧
    ((∃ n, j = number n) ∨ isNumberChar c = false) := by
  have hdelimiter {c : Char} (h : c ∉ [',', ']', '}']) : ¬ isDelimiter c := fun hc =>
    h (by rcases hc with rfl | rfl | rfl <;> simp)
  cases j with
  | number n =>
    obtain ⟨c, cs, heq, hc⟩ := number_cons n
    refine ⟨c, cs, heq, fun hdelim => ?_, .inl ⟨n, rfl⟩⟩
    rw [isNumberChar_of_isDelimiter hdelim] at hc
    cases hc
  | bool b => cases b <;> exact ⟨_, _, rfl, hdelimiter (by decide), .inr rfl⟩
  | _ => exact ⟨_, _, rfl, hdelimiter (by decide), .inr rfl⟩

theorem delimited_entry (h : Delimited isDelimiter print value) (key : String) :
    Delimited isDelimiter printEntry (key, value) := by
  intro entry rest rest' hrest hrest' heq
  rw [printEntry, printEntry, List.append_assoc, List.append_assoc] at heq
  obtain ⟨hkey, htail⟩ := quote_inj heq
  obtain ⟨hvalue, hend⟩ := h _ _ _ hrest hrest' (List.cons.inj htail).2
  exact ⟨Prod.ext hkey hvalue, hend⟩

theorem delimited_number (n : JsonNumber) : Delimited isDelimiter print (number n) := by
  intro j rest rest' hrest hrest' heq
  have hstop {rest : List Char} (h : Follows isDelimiter rest) :
      Follows (fun c => isNumberChar c = false) rest :=
    h.imp fun _ => isNumberChar_of_isDelimiter
  obtain ⟨c, cs, hcs, -, hj⟩ := print_cons j
  rcases hj with ⟨m, rfl⟩ | hnot
  · obtain ⟨htext, hend⟩ := append_inj_of_follows n.isNumber m.isNumber (hstop hrest)
      (hstop hrest') heq
    exact ⟨congrArg number (JsonNumber.ext htext), hend⟩
  · obtain ⟨d, ds, hds, hd⟩ := number_cons n
    rw [print, hds, hcs] at heq
    rw [(List.cons.inj heq).1, hnot] at hd
    cases hd

/-- For every other document only those others are left. -/
theorem delimited_of_ne_number {j : Json} (hj : ∀ n, j ≠ number n)
    (h : ∀ k rest rest', (∀ n, k ≠ number n) → j.print ++ rest = k.print ++ rest' →
      j = k ∧ rest = rest') : Delimited isDelimiter print j := by
  intro k rest rest' _ _ heq
  obtain ⟨c, cs, hcs, -, hc⟩ := print_cons j
  have hfirst : isNumberChar c = false := by
    refine hc.resolve_left ?_
    rintro ⟨n, hn⟩
    exact hj n hn
  apply h k rest rest' _ heq
  rintro n rfl
  obtain ⟨d, ds, hds, hd⟩ := number_cons n
  rw [hcs, print, hds] at heq
  rw [← (List.cons.inj heq).1, hfirst] at hd
  cases hd

theorem printItems_inj {items items' : List Json} (h : ∀ j ∈ items, Delimited isDelimiter print j)
    (heq : Parser.separated ',' (printItems items) ++ ']' :: rest =
      Parser.separated ',' (printItems items') ++ ']' :: rest') : items = items' ∧ rest = rest' := by
  rw [printItems_eq, printItems_eq] at heq
  refine separated_inj (.inl rfl) (.inr (.inl rfl)) (by decide) h (fun j => ?_) heq
  obtain ⟨c, cs, hcs, hc, -⟩ := print_cons j
  exact ⟨c, cs, hcs, fun heq => hc (.inr (.inl heq))⟩

theorem printEntries_inj {entries entries' : List (String × Json)}
    (h : ∀ entry ∈ entries, Delimited isDelimiter print entry.2)
    (heq : Parser.separated ',' (printEntries entries) ++ '}' :: rest =
      Parser.separated ',' (printEntries entries') ++ '}' :: rest') :
    entries = entries' ∧ rest = rest' := by
  rw [printEntries_eq, printEntries_eq] at heq
  refine separated_inj (.inl rfl) (.inr (.inr rfl)) (by decide)
    (fun entry hentry => delimited_entry (h entry hentry) entry.1) (fun entry => ?_) heq
  exact ⟨'"', _, rfl, by decide⟩

theorem delimited_print (j : Json) : Delimited isDelimiter print j := by
  induction j using Json.induction with
  | number n => exact delimited_number n
  | null =>
    refine delimited_of_ne_number (fun _ h => by cases h) fun k rest rest' hk heq => ?_
    cases k with
    | null => exact ⟨rfl, List.append_cancel_left heq⟩
    | number n => exact absurd rfl (hk n)
    | bool b => cases b <;> cases heq
    | _ => cases heq
  | bool b =>
    refine delimited_of_ne_number (fun _ h => by cases h) fun k rest rest' hk heq => ?_
    cases k with
    | bool b' => cases b <;> cases b' <;> cases heq <;> exact ⟨rfl, rfl⟩
    | number n => exact absurd rfl (hk n)
    | _ => cases b <;> cases heq
  | string s =>
    refine delimited_of_ne_number (fun _ h => by cases h) fun k rest rest' hk heq => ?_
    cases k with
    | string s' =>
      obtain ⟨rfl, hrest⟩ := quote_inj heq
      exact ⟨rfl, hrest⟩
    | number n => exact absurd rfl (hk n)
    | bool b => cases b <;> cases heq
    | _ => cases heq
  | array items ih =>
    refine delimited_of_ne_number (fun _ h => by cases h) fun k rest rest' hk heq => ?_
    cases k with
    | array items' =>
      rw [print, print, List.cons_append, List.cons_append, List.append_assoc,
        List.append_assoc] at heq
      obtain ⟨rfl, hrest⟩ := printItems_inj ih (List.cons.inj heq).2
      exact ⟨rfl, hrest⟩
    | number n => exact absurd rfl (hk n)
    | bool b => cases b <;> cases heq
    | _ => cases heq
  | object entries ih =>
    refine delimited_of_ne_number (fun _ h => by cases h) fun k rest rest' hk heq => ?_
    cases k with
    | object entries' =>
      rw [print, print, List.cons_append, List.cons_append, List.append_assoc,
        List.append_assoc] at heq
      obtain ⟨rfl, hrest⟩ := printEntries_inj ih (List.cons.inj heq).2
      exact ⟨rfl, hrest⟩
    | number n => exact absurd rfl (hk n)
    | bool b => cases b <;> cases heq
    | _ => cases heq

/-- The text of a document is the text of no other one. -/
theorem print_injective : Function.Injective print := fun j _ h => (delimited_print j).eq h

end Json

end ComplyLayer.Theory
