import ComplyLayer.Dsl.Grammar
import ComplyLayer.Dsl.Structured

/-!
# What the grammar reads

Rules for the tokenizer and for each level of the grammar, one for each way the renderer puts text
together: `Lexes cs ts` for the characters, `Parses` for the tokens at a level.
-/

namespace ComplyLayer

open Theory Parser

namespace Grammar

/-! ## Tokens -/

theorem word?_length (h : word? cs = some (t, rest)) (hstart : isWordChar c)
    (hcs : cs = c :: cs') : rest.length < cs.length := by
  unfold word? at h
  split at h
  · cases h
  · cases h
    rw [hcs, List.dropWhile_cons_of_pos hstart]
    exact Nat.lt_succ_of_le (List.dropWhile_sublist _).length_le

theorem number?_length (h : number? cs = some (t, rest)) (hstart : c.isDigit)
    (hcs : cs = c :: cs') : rest.length < cs.length := by
  unfold number? at h
  obtain ⟨n, -, h⟩ := Option.bind_eq_some_iff.mp h
  split at h
  · cases h
  · cases h
    rw [hcs, List.dropWhile_cons_of_pos hstart]
    exact Nat.lt_succ_of_le (List.dropWhile_sublist _).length_le

theorem text?_length (h : text? cs = some (t, rest)) : rest.length < cs.length := by
  unfold text? at h
  split at h
  · rename_i rest' heq
    split at h
    · cases h
    · cases h
      have hle := (List.dropWhile_sublist isTextChar (l := cs)).length_le
      rw [heq, List.length_cons] at hle
      exact hle
  · cases h

theorem symbol?_length (h : symbol? cs = some (t, rest)) : rest.length < cs.length := by
  unfold symbol? at h
  split at h <;> cases h <;> simp only [List.length_cons] <;> omega

/-- A token takes at least one character. -/
theorem nextToken_length (h : nextToken cs = some (t, rest)) : rest.length < cs.length := by
  cases cs with
  | nil => cases h
  | cons c cs =>
    rw [nextToken] at h
    split at h
    · rename_i hstart
      exact word?_length h (by rw [isWordChar, hstart]; rfl) rfl
    · split at h
      · rename_i hdigit
        exact number?_length h hdigit rfl
      · split at h
        · exact Nat.lt_succ_of_lt (text?_length h)
        · exact symbol?_length h

theorem tokenizeFrom_eq (h : cs.length ≤ fuel) : tokenizeFrom fuel cs = tokenize cs := by
  suffices ∀ fuel', cs.length ≤ fuel' → tokenizeFrom fuel cs = tokenizeFrom fuel' cs from
    this cs.length (Nat.le_refl _)
  induction fuel generalizing cs with
  | zero =>
    intro fuel' _
    cases List.eq_nil_of_length_eq_zero (Nat.le_zero.mp h)
    cases fuel' <;> rfl
  | succ fuel ih =>
    intro fuel' h'
    cases cs with
    | nil => cases fuel' <;> rfl
    | cons c cs =>
      cases fuel' with
      | zero => cases h'
      | succ fuel' =>
        rw [tokenizeFrom, tokenizeFrom]
        split
        · exact ih (Nat.le_of_succ_le_succ h) _ (Nat.le_of_succ_le_succ h')
        · cases hnext : nextToken (c :: cs) with
          | none => rfl
          | some p =>
            obtain ⟨t, rest⟩ := p
            have hlt := nextToken_length hnext
            rw [List.length_cons] at h h' hlt
            have hrest : tokenizeFrom fuel rest = tokenizeFrom fuel' rest :=
              ih (by omega) fuel' (by omega)
            change (do
              let ts ← tokenizeFrom fuel rest
              some (t :: ts)) = _
            rw [hrest]
            rfl

@[simp] theorem tokenize_nil : tokenize [] = some [] := rfl

theorem tokenize_of_nextToken (h : nextToken cs = some (t, rest)) (hspace : cs.head? ≠ some ' ') :
    tokenize cs = (tokenize rest).map (t :: ·) := by
  cases cs with
  | nil => cases h
  | cons c cs =>
    have hc : c ≠ ' ' := fun heq => hspace (congrArg some heq)
    have hlt := nextToken_length h
    rw [List.length_cons] at hlt
    change tokenizeFrom (cs.length + 1) (c :: cs) = _
    rw [tokenizeFrom, if_neg hc, h]
    change (do
      let ts ← tokenizeFrom cs.length rest
      some (t :: ts)) = _
    rw [tokenizeFrom_eq (by omega)]
    cases tokenize rest <;> rfl

/-- What the renderer puts after a word, a number or a string. -/
def isBoundary (c : Char) : Prop := c ∈ [' ', '(', ')', ']', ',', '=']

/-- The characters are these tokens, before every boundary. -/
def Lexes (cs : List Char) (ts : List Token) : Prop :=
  ∀ rest, Follows isBoundary rest → tokenize (cs ++ rest) = (tokenize rest).map (ts ++ ·)

/-- The characters are these tokens, before everything. -/
def Opens (cs : List Char) (ts : List Token) : Prop :=
  ∀ rest, tokenize (cs ++ rest) = (tokenize rest).map (ts ++ ·)

theorem Lexes.tokenize_eq (h : Lexes cs ts) : tokenize cs = some ts := by
  have hcs := h [] follows_nil
  rw [List.append_nil, tokenize_nil] at hcs
  rw [hcs, Option.map_some, List.append_nil]

theorem lexes_nil : Lexes [] [] := fun rest _ => by simp

theorem map_append_map (x : Option (List Token)) (ts us : List Token) :
    (x.map (us ++ ·)).map (ts ++ ·) = x.map ((ts ++ us) ++ ·) := by
  rw [Option.map_map]
  congr 1
  funext vs
  exact (List.append_assoc ..).symm

theorem Opens.append (h : Opens cs ts) (h' : Opens cs' ts') : Opens (cs ++ cs') (ts ++ ts') := by
  intro rest
  rw [List.append_assoc, h, h', map_append_map]

theorem Opens.all (h : Opens cs ts) : Lexes cs ts := fun rest _ => h rest

/-- Two pieces with a separator between them that starts with a boundary. -/
theorem Lexes.join (h : Lexes cs ts) (hsep : Opens (c :: sep) us) (hc : isBoundary c)
    (h' : Lexes cs' ts') : Lexes (cs ++ (c :: sep) ++ cs') (ts ++ us ++ ts') := by
  intro rest hrest
  rw [List.append_assoc, List.append_assoc, List.cons_append, h _ (follows_cons hc _),
    ← List.cons_append, hsep, h' rest hrest, map_append_map, map_append_map, List.append_assoc]

/-- A piece with a boundary after it. -/
theorem Lexes.close (h : Lexes cs ts) (hc : isBoundary c) (hopens : Opens [c] us) :
    Opens (cs ++ [c]) (ts ++ us) := by
  intro rest
  rw [List.append_assoc, List.singleton_append, h _ (follows_cons hc _), ← List.singleton_append,
    hopens, map_append_map]

/-! ### Delimiters -/

theorem opens_space : Opens [' '] [] := fun rest => by
  change tokenize rest = _
  simp

theorem opens_delimiter (hspace : c ≠ ' ') (h : ∀ cs, nextToken (c :: cs) = some (t, cs)) :
    Opens [c] [t] := fun rest =>
  tokenize_of_nextToken (h rest) fun heq => hspace (Option.some.inj heq)

theorem opens_leftParen : Opens ['('] [.leftParen] := opens_delimiter (by decide) fun _ => rfl
theorem opens_rightParen : Opens [')'] [.rightParen] := opens_delimiter (by decide) fun _ => rfl
theorem opens_leftBracket : Opens ['['] [.leftBracket] := opens_delimiter (by decide) fun _ => rfl
theorem opens_rightBracket : Opens [']'] [.rightBracket] :=
  opens_delimiter (by decide) fun _ => rfl

/-- `", "`. -/
theorem opens_comma : Opens [',', ' '] [.comma] :=
  Opens.append (opens_delimiter (by decide) fun _ => rfl) opens_space

theorem Lexes.opens (h : Lexes cs ts) : Opens (cs ++ [' ']) ts := by
  have hclose := h.close (by simp [isBoundary]) opens_space
  rwa [List.append_nil] at hclose

/-! ### Words, numbers and strings -/

theorem lexes_token (h : ∀ rest, Follows isBoundary rest → nextToken (cs ++ rest) = some (t, rest))
    (hne : cs ≠ []) (hspace : cs.head? ≠ some ' ') : Lexes cs [t] := by
  intro rest hrest
  apply tokenize_of_nextToken (h rest hrest)
  rwa [List.head?_append_of_ne_nil _ hne]

theorem isWordChar_of_isBoundary : ∀ c, isBoundary c → isWordChar c = false := by
  simp only [isBoundary, List.forall_mem_cons]
  exact ⟨rfl, rfl, rfl, rfl, rfl, rfl, nofun⟩

theorem isQuote_of_isBoundary : ∀ c, isBoundary c → word?.isQuote c = false := by
  simp only [isBoundary, List.forall_mem_cons]
  exact ⟨rfl, rfl, rfl, rfl, rfl, rfl, nofun⟩

theorem continues_of_isBoundary : ∀ c, isBoundary c → number?.continues c = false := by
  simp only [isBoundary, List.forall_mem_cons]
  exact ⟨rfl, rfl, rfl, rfl, rfl, rfl, nofun⟩

theorem any_head?_eq_false {p : Char → Bool} (hp : ∀ c, isBoundary c → p c = false)
    (hrest : Follows isBoundary rest) : rest.head?.any p = false := by
  cases rest with
  | nil => rfl
  | cons c rest => exact hp c (hrest c rfl)

theorem lexes_word {word : String} (hstart : word.toList = c :: cs) (hc : isWordStart c = true)
    (hcs : cs.all isWordChar = true) : Lexes word.toList [wordToken word] := by
  have hword : ∀ d ∈ word.toList, isWordChar d = true := by
    rw [hstart]
    exact List.forall_mem_cons.mpr ⟨by rw [isWordChar, hc, Bool.true_or], List.all_eq_true.mp hcs⟩
  apply lexes_token
  · intro rest hrest
    have hstop : Follows (fun d => isWordChar d = false) rest :=
      hrest.imp isWordChar_of_isBoundary
    have hnext : nextToken (word.toList ++ rest) = word? (word.toList ++ rest) := by
      rw [hstart]
      exact if_pos hc
    have hquote := any_head?_eq_false isQuote_of_isBoundary hrest
    rw [hnext, word?, takeWhile_append_follows hword hstop, dropWhile_append_follows hword hstop,
      hquote, String.ofList_toList]
    rfl
  · rw [hstart]
    exact List.cons_ne_nil _ _
  · rw [hstart]
    intro heq
    cases Option.some.inj heq
    cases hc

theorem not_isWordStart_of_isDigit {c : Char} (h : c.isDigit = true) : isWordStart c = false := by
  simp only [Char.isDigit, Bool.and_eq_true, decide_eq_true_eq, ge_iff_le,
    UInt32.le_iff_toNat_le] at h
  simp only [isWordStart, RuleValidator.isAsciiLetter, Bool.or_eq_false_iff,
    Bool.and_eq_false_iff, decide_eq_false_iff_not, beq_eq_false_iff_ne, Char.le_def,
    UInt32.le_iff_toNat_le]
  have hnine : '9'.val.toNat = 57 := rfl
  have hlower : 'a'.val.toNat = 97 := rfl
  have hupper : 'A'.val.toNat = 65 := rfl
  refine ⟨⟨.inl (by omega), .inl (by omega)⟩, ?_⟩
  rintro rfl
  exact absurd h.2 (by decide)

theorem repr_eq_cons (n : Nat) : ∃ c cs, n.repr.toList = c :: cs ∧ c.isDigit = true := by
  have hne : n.repr.toList ≠ [] := by
    rw [Nat.toList_repr]
    exact Nat.toDigits_ne_nil
  obtain ⟨c, cs, heq⟩ := List.exists_cons_of_ne_nil hne
  exact ⟨c, cs, heq, isDigit_of_mem_repr n (heq ▸ List.mem_cons_self)⟩

/-- A number is read before whatever does not continue it. -/
theorem nextToken_number (n : Nat) (hrest : Follows isBoundary rest) :
    nextToken (n.repr.toList ++ rest) = some (.number n, rest) := by
  have hdigits : ∀ c ∈ n.repr.toList, c.isDigit = true := fun c hc => isDigit_of_mem_repr n hc
  obtain ⟨c, cs, heq, hc⟩ := repr_eq_cons n
  have hnext : nextToken (n.repr.toList ++ rest) = number? (n.repr.toList ++ rest) := by
    rw [heq]
    change (if isWordStart c then _ else if c.isDigit then _ else _) = _
    rw [not_isWordStart_of_isDigit hc, hc]
    rfl
  have hstop : Follows (fun c : Char => c.isDigit = false) rest := by
    intro d hd
    have hword := isWordChar_of_isBoundary d (hrest d hd)
    exact (Bool.or_eq_false_iff.mp hword).2
  have hcontinues := any_head?_eq_false continues_of_isBoundary hrest
  rw [hnext, number?, takeWhile_append_follows hdigits hstop,
    dropWhile_append_follows hdigits hstop, natOfDigits?_repr, hcontinues]
  simp

theorem lexes_number (n : Nat) : Lexes n.repr.toList [.number n] := by
  obtain ⟨c, cs, heq, hc⟩ := repr_eq_cons n
  apply lexes_token fun rest hrest => nextToken_number n hrest
  · rw [heq]
    exact List.cons_ne_nil _ _
  · rw [heq]
    intro hspace
    cases Option.some.inj hspace
    cases hc

theorem lexes_negative (n : Nat) : Lexes ('-' :: n.repr.toList) [.minus, .number n] := by
  intro rest hrest
  have hminus : nextToken ('-' :: (n.repr.toList ++ rest)) =
      some (.minus, n.repr.toList ++ rest) := by
    obtain ⟨c, cs, heq, hc⟩ := repr_eq_cons n
    rw [heq]
    have hequal : c ≠ '=' := by
      rintro rfl
      cases hc
    have harrow : c ≠ '>' := by
      rintro rfl
      cases hc
    change symbol? ('-' :: c :: (cs ++ rest)) = _
    unfold symbol?
    split <;> simp_all
  have hne : ('-' :: (n.repr.toList ++ rest)).head? ≠ some ' ' := by
    intro heq
    cases heq
  rw [List.cons_append, tokenize_of_nextToken hminus hne, lexes_number n rest hrest]
  exact map_append_map _ [.minus] [.number n]

theorem lexes_text {s : String} (h : ∀ c ∈ s.toList, isTextChar c = true) :
    Lexes ("'" ++ s ++ "'").toList [.text s] := by
  have hlist : ("'" ++ s ++ "'").toList = '\'' :: (s.toList ++ ['\'']) := by
    simp
  rw [hlist]
  apply lexes_token
  · intro rest hrest
    have hstop : Follows (fun c => isTextChar c = false) ('\'' :: rest) :=
      follows_cons (by decide) _
    have hnext : nextToken ('\'' :: (s.toList ++ ['\'']) ++ rest) =
        text? (s.toList ++ '\'' :: rest) := by
      rw [List.cons_append, List.append_assoc]
      rfl
    have hquote : (rest.head? == some '\'') = false := by
      rw [beq_eq_false_iff_ne]
      intro heq
      cases isQuote_of_isBoundary _ (hrest _ heq)
    rw [hnext, text?, dropWhile_append_follows h hstop, takeWhile_append_follows h hstop]
    simp [hquote]
  · exact List.cons_ne_nil _ _
  · intro heq
    cases heq

/-! ## Levels -/

/-- What can come after an expression. -/
def closes (t : Token) : Prop := t ∈ [.rightParen, .rightBracket, .comma, .equal]

/-- What can come after a conjunction. -/
def endsConjunction (t : Token) : Prop := t = .or ∨ closes t

/-- What can come after a comparison. -/
def endsComparison (t : Token) : Prop := t = .and ∨ endsConjunction t

/-- What can come after an operand. -/
def endsOperand (t : Token) : Prop :=
  endsComparison t ∨ t = .in ∨ t = .not ∨ ∃ op, t = .cmp op

theorem cmpOperator_of_follows (h : Follows endsComparison rest) : cmpOperator rest = none := by
  cases rest with
  | nil => rfl
  | cons t rest =>
    have ht := h t rfl
    simp only [endsComparison, endsConjunction, closes, List.mem_cons, List.not_mem_nil,
      or_false] at ht
    rcases ht with rfl | rfl | rfl | rfl | rfl | rfl <;> rfl

theorem calls_of_follows {expr : Parser Token Node} (h : Follows endsOperand rest) :
    calls expr fuel node rest = some (node, rest) := by
  cases fuel with
  | zero => rfl
  | succ fuel =>
    cases rest with
    | nil => rfl
    | cons t rest =>
      have ht : t ≠ .leftParen := by
        rintro rfl
        have hparen := h _ rfl
        simp [endsOperand, endsComparison, endsConjunction, closes] at hparen
      unfold calls
      split
      · rename_i heq
        cases heq
        exact absurd rfl ht
      · rfl

section
variable {p : Parser Token Node} {follow : Token → Prop}

/-- An atom is a primary where no call follows. -/
theorem parses_primary (h : Parses (atom p) endsOperand ts node) :
    Parses (primary p) endsOperand ts node := by
  intro rest hrest
  rw [primary, h rest hrest]
  exact calls_of_follows hrest

theorem minuses_of_ne (ht : t ≠ .minus) (fuel : Nat) (ts : List Token) :
    factor.minuses p fuel (t :: ts) = p (t :: ts) := by
  unfold factor.minuses
  split
  · rename_i heq
    cases heq
    exact absurd rfl ht
  · rfl

theorem parses_factor (h : Parses p follow (t :: ts) node) (ht : t ≠ .minus) :
    Parses (factor p) follow (t :: ts) node := by
  intro rest hrest
  rw [factor, List.cons_append, minuses_of_ne ht]
  exact h rest hrest

theorem parses_factor_minus (h : Parses p follow (t :: ts) node) (ht : t ≠ .minus) :
    Parses (factor p) follow (.minus :: t :: ts) (.unaryOp .uSub node) := by
  intro rest hrest
  change Parser.map (Node.unaryOp .uSub) (factor.minuses p _) (t :: (ts ++ rest)) = _
  rw [Parser.map, minuses_of_ne ht, ← List.cons_append, h rest hrest]
  rfl

theorem nots_of_ne (ht : t ≠ .not) (fuel : Nat) (ts : List Token) :
    inversion.nots p fuel (t :: ts) = p (t :: ts) := by
  unfold inversion.nots
  split
  · rename_i heq
    cases heq
    exact absurd rfl ht
  · rfl

theorem parses_inversion (h : Parses p follow (t :: ts) node) (ht : t ≠ .not) :
    Parses (inversion p) follow (t :: ts) node := by
  intro rest hrest
  rw [inversion, List.cons_append, nots_of_ne ht]
  exact h rest hrest

theorem parses_inversion_not (h : Parses p follow (t :: ts) node) (ht : t ≠ .not) :
    Parses (inversion p) follow (.not :: t :: ts) (.unaryOp .not node) := by
  intro rest hrest
  change Parser.map (Node.unaryOp .not) (inversion.nots p _) (t :: (ts ++ rest)) = _
  rw [Parser.map, nots_of_ne ht, ← List.cons_append, h rest hrest]
  rfl

theorem chain_of_follows (h : Follows endsComparison rest) (fuel : Nat) :
    comparison.chain p fuel rest = some ([], rest) := by
  cases fuel with
  | zero => rfl
  | succ fuel => rw [comparison.chain, cmpOperator_of_follows h]

/-- An operand is a comparison where no operator follows. -/
theorem parses_comparison (h : Parses p endsOperand ts node) :
    Parses (comparison p) endsComparison ts node := by
  intro rest hrest
  have hread := h rest (hrest.imp fun _ => .inl)
  simp only [comparison, hread, chain_of_follows hrest, Option.bind_eq_bind, Option.bind_some]
  rfl

/-- The tokens of an operator. -/
def cmpTokens : CmpOp → List Token
  | .in => [.in]
  | .notIn => [.not, .in]
  | op => [.cmp op]

theorem cmpOperator_cmpTokens (op : CmpOp) (ts : List Token) :
    cmpOperator (cmpTokens op ++ ts) = some (op, ts) := by
  cases op <;> rfl

theorem follows_cmpTokens (op : CmpOp) (ts : List Token) :
    Follows endsOperand (cmpTokens op ++ ts) := by
  cases op <;> exact follows_cons (by simp [endsOperand]) _

theorem parses_comparison_one (h : Parses p endsOperand ts left) (op : CmpOp)
    (h' : Parses p endsOperand us right) :
    Parses (comparison p) endsComparison (ts ++ cmpTokens op ++ us)
      (.compare left [(op, right)]) := by
  intro rest hrest
  have hright := h' rest (hrest.imp fun _ => .inl)
  have hchain : comparison.chain p (cmpTokens op ++ (us ++ rest)).length
      (cmpTokens op ++ (us ++ rest)) = some ([(op, right)], rest) := by
    obtain ⟨fuel, hfuel⟩ : ∃ fuel, (cmpTokens op ++ (us ++ rest)).length = fuel + 1 := by
      cases op <;> exact ⟨_, rfl⟩
    rw [hfuel, comparison.chain, cmpOperator_cmpTokens]
    simp only [hright, chain_of_follows hrest, Option.bind_eq_bind, Option.bind_some]
  have hleft := h _ (follows_cmpTokens op (us ++ rest))
  rw [List.append_assoc, List.append_assoc]
  simp only [comparison, hleft, hchain, Option.bind_eq_bind, Option.bind_some]
  rfl

/-- Parts with `and` between them. -/
theorem parses_conjunction (h : List.Forall₂ (Parses p endsComparison) tss nodes) (hne : tss ≠ []) :
    Parses (conjunction p) endsConjunction (separated .and tss) (joined .and nodes) := by
  have hsep : ¬ endsConjunction .and := by simp [endsConjunction, closes]
  exact (parses_sepBy hsep h hne).map (joined .and)

/-- Parts with `or` between them. -/
theorem parses_disjunction (h : List.Forall₂ (Parses p endsConjunction) tss nodes)
    (hne : tss ≠ []) :
    Parses (disjunction p) closes (separated .or tss) (joined .or nodes) := by
  have hsep : ¬ closes .or := by simp [closes]
  exact (parses_sepBy hsep h hne).map (joined .or)

end

/-! ## Pieces of text -/

/-- No expression starts with any other token than these. -/
def Starts (ts : List Token) : Prop :=
  ∃ t us, ts = t :: us ∧ t ∉ [.not, .rightParen, .rightBracket, .equal, .cmp .eq]

/-- The tokens are an operand of a comparison. -/
structure Operand (ts : List Token) (node : Node) : Prop where
  starts : Starts ts
  parses : ∀ fuel, ts.length ≤ fuel →
    Parses (factor (primary (expression fuel))) endsOperand ts node

/-- The tokens are a part of a conjunction. -/
def Part (ts : List Token) (node : Node) : Prop := ∀ fuel, ts.length ≤ fuel →
  Parses (inversion (comparison (factor (primary (expression fuel))))) endsComparison ts node

/-- The tokens are an expression. -/
def Whole (ts : List Token) (node : Node) : Prop :=
  ∀ fuel, ts.length < fuel → Parses (expression fuel) closes ts node

theorem Operand.part (h : Operand ts node) : Part ts node := by
  intro fuel hfuel
  obtain ⟨t, us, rfl, ht⟩ := h.starts
  exact parses_inversion (parses_comparison (h.parses fuel hfuel)) fun heq => ht (by simp [heq])

theorem part_comparison (h : Operand ts left) (op : CmpOp) (h' : Operand us right) :
    Part (ts ++ cmpTokens op ++ us) (.compare left [(op, right)]) := by
  intro fuel hfuel
  rw [List.length_append, List.length_append] at hfuel
  have hread := parses_comparison_one (h.parses fuel (by omega)) op (h'.parses fuel (by omega))
  obtain ⟨t, ts, rfl, ht⟩ := h.starts
  exact parses_inversion hread fun heq => ht (by simp [heq])

/-- A conjunction is an expression. -/
theorem parses_expression {fuel : Nat}
    (h : Parses (conjunction (inversion (comparison (factor (primary (expression fuel))))))
      endsConjunction ts node) : Parses (expression (fuel + 1)) closes ts node := by
  have hread := parses_disjunction (.cons h .nil) (List.cons_ne_nil _ _)
  rwa [separated_singleton] at hread

theorem whole_and (h : List.Forall₂ Part tss nodes) (hne : tss ≠ []) :
    Whole (separated .and tss) (joined .and nodes) := by
  intro fuel hfuel
  cases fuel with
  | zero => cases hfuel
  | succ fuel =>
    apply parses_expression
    refine parses_conjunction (forall₂_imp_of_mem (fun ts hts node hpart => ?_) h) hne
    have hle := length_le_of_mem_separated Token.and hts
    exact hpart fuel (by omega)

theorem Part.whole (h : Part ts node) : Whole ts node := by
  have hwhole := whole_and (.cons h .nil) (List.cons_ne_nil _ _)
  rwa [separated_singleton] at hwhole

theorem whole_or (h : List.Forall₂ Part tss nodes) (hne : tss ≠ []) :
    Whole (separated .or tss) (joined .or nodes) := by
  intro fuel hfuel
  cases fuel with
  | zero => cases hfuel
  | succ fuel =>
    refine parses_disjunction (forall₂_imp_of_mem (fun ts hts node hpart => ?_) h) hne
    have hle := length_le_of_mem_separated Token.or hts
    have hread := parses_conjunction (.cons (hpart fuel (by omega)) .nil) (List.cons_ne_nil _ _)
    rwa [separated_singleton] at hread

/-! ### Operands -/

theorem operand_atom (hts : t ∉ [.not, .rightParen, .rightBracket, .equal, .cmp .eq, .minus])
    (h : ∀ fuel, (t :: ts).length ≤ fuel →
      Parses (atom (expression fuel)) endsOperand (t :: ts) node) : Operand (t :: ts) node where
  starts := ⟨t, ts, rfl, fun hmem => hts (by simp at hmem ⊢; tauto)⟩
  parses fuel hfuel :=
    parses_factor (parses_primary (h fuel hfuel)) fun heq => hts (by simp [heq])

theorem operand_name (id : String) : Operand [.name id] (.name id) :=
  operand_atom (by simp) fun _ _ _ _ => rfl

theorem operand_number (n : Nat) : Operand [.number n] (.constant (.int n)) :=
  operand_atom (by simp) fun _ _ _ _ => rfl

theorem operand_text (s : String) : Operand [.text s] (.constant (.str s)) :=
  operand_atom (by simp) fun _ _ _ _ => rfl

theorem operand_negative (n : Nat) :
    Operand [.minus, .number n] (.unaryOp .uSub (.constant (.int n))) where
  starts := ⟨.minus, [.number n], rfl, by simp⟩
  parses _ _ := parses_factor_minus (parses_primary fun _ _ => rfl) (by simp)

theorem operand_group (h : Whole ts node) : Operand (.leftParen :: (ts ++ [.rightParen])) node := by
  refine operand_atom (by simp) fun fuel hfuel rest _ => ?_
  rw [List.length_cons, List.length_append] at hfuel
  have hread := h fuel (by omega) (.rightParen :: rest) (follows_cons (by simp [closes]) _)
  rw [List.cons_append, List.append_assoc, List.singleton_append, atom, hread]

theorem part_not (h : Whole ts node) :
    Part (.not :: .leftParen :: (ts ++ [.rightParen])) (.unaryOp .not node) := by
  intro fuel hfuel
  have hgroup := (operand_group h).parses fuel (Nat.le_of_succ_le hfuel)
  exact parses_inversion_not (parses_comparison hgroup) (by simp)

theorem Operand.whole (h : Operand ts node) : Whole ts node := h.part.whole

theorem Operand.length_pos (h : Operand ts node) : 0 < ts.length := by
  obtain ⟨t, us, rfl, -⟩ := h.starts
  exact Nat.succ_pos _

theorem atom_list {p : Parser Token Node} (ht : t ≠ .rightBracket)
    (h : sepBy .comma p (t :: ts) = some (nodes, .rightBracket :: rest)) :
    atom p (.leftBracket :: t :: ts) = some (.list nodes, rest) := by
  unfold atom
  split
  case h_8 heq =>
    cases heq
    exact absurd rfl ht
  case h_9 heq =>
    cases heq
    rw [h]
  all_goals simp_all

theorem operand_list (h : List.Forall₂ Operand tss nodes) :
    Operand (.leftBracket :: (separated .comma tss ++ [.rightBracket])) (.list nodes) := by
  refine operand_atom (by simp) fun fuel hfuel rest _ => ?_
  rw [List.length_cons, List.length_append] at hfuel
  cases h with
  | nil => rfl
  | @cons ts node tss nodes hitem hmore =>
    have hread : Parses (sepBy .comma (expression fuel)) (fun t => t = .rightBracket)
        (separated .comma (ts :: tss)) (node :: nodes) := by
      refine parses_sepBy (by simp) ?_ (List.cons_ne_nil _ _)
      refine forall₂_imp_of_mem (fun us hus node hnode => ?_) (.cons hitem hmore)
      have hle := length_le_of_mem_separated Token.comma hus
      refine (hnode.whole fuel (by omega)).imp fun t ht => ?_
      rcases ht with rfl | rfl <;> simp [closes]
    have hlist := hread (.rightBracket :: rest) fun t ht => by
      cases ht
      rfl
    obtain ⟨t, us, rfl, ht⟩ := hitem.starts
    rw [List.cons_append, List.append_assoc, List.singleton_append]
    exact atom_list (fun heq => ht (by simp [heq])) hlist

/-! ### Calls -/

/-- The tokens are a setting of a call. -/
def Setting (ts : List Token) (keyword : Option String × Node) : Prop :=
  ∃ id us, ts = .name id :: .equal :: us ∧ keyword.1 = some id ∧ Operand us keyword.2

/-- What can come after an argument of a call. -/
def endsArgument (t : Token) : Prop := t = .comma ∨ t = .rightParen

theorem parses_argument (h : Operand ts node) (hfuel : ts.length < fuel) :
    Parses (argument (expression fuel)) endsArgument ts (none, node) := by
  intro rest hrest
  have hpos := h.length_pos
  have hcloses : Follows closes rest := hrest.imp fun t ht => by
    rcases ht with rfl | rfl <;> simp [closes]
  have hread := h.whole fuel hfuel rest hcloses
  unfold argument
  split
  · rename_i id us heq
    -- An expression would end at the sign, which comes after no argument.
    have hname := (operand_name id).whole fuel (by simp only [List.length_singleton]; omega)
      (.equal :: us) (follows_cons (by simp [closes]) _)
    rw [heq] at hread
    have hrests : rest = .equal :: us :=
      congrArg Prod.snd (Option.some.inj (hread.symm.trans hname))
    have hequal : endsArgument .equal := hrest .equal (by rw [hrests]; rfl)
    simp [endsArgument] at hequal
  · rw [Parser.map, hread]
    rfl

theorem parses_setting (h : Setting ts keyword) (hfuel : ts.length < fuel) :
    Parses (argument (expression fuel)) endsArgument ts keyword := by
  intro rest hrest
  obtain ⟨id, us, rfl, hid, hvalue⟩ := h
  have hcloses : Follows closes rest := hrest.imp fun t ht => by
    rcases ht with rfl | rfl <;> simp [closes]
  rw [List.length_cons, List.length_cons] at hfuel
  have hread := hvalue.whole fuel (by omega) rest hcloses
  change Parser.map (fun node => (some id, node)) (expression fuel) (us ++ rest) = _
  rw [Parser.map, hread, ← hid]
  rfl

theorem Setting.starts (h : Setting ts keyword) : Starts ts := by
  obtain ⟨id, us, rfl, -⟩ := h
  exact ⟨.name id, _, rfl, by simp⟩

theorem Setting.isSome (h : List.Forall₂ Setting uss named) :
    ∀ keyword ∈ named, keyword.1.isSome = true := by
  induction h with
  | nil => nofun
  | cons hsetting _ ih =>
    obtain ⟨id, us, -, hid, -⟩ := hsetting
    exact List.forall_mem_cons.mpr ⟨by rw [hid]; rfl, ih⟩

/-- Arguments after an opening bracket that are not none at all. -/
theorem arguments_of_sepBy {p : Parser Token Node} (ht : t ≠ .rightParen)
    (h : sepBy .comma (argument p) (t :: ts) =
      some (nodes.map (fun node => (none, node)) ++ named, .rightParen :: rest))
    (hnamed : ∀ keyword ∈ named, keyword.1.isSome = true) :
    arguments p (t :: ts) = some ((nodes, named), rest) := by
  have hpositional : ∀ arg ∈ nodes.map (fun node => ((none : Option String), node)),
      arg.1.isNone = true := by
    intro arg harg
    obtain ⟨node, -, rfl⟩ := List.mem_map.mp harg
    rfl
  have hfollows : Follows (fun arg => arg.1.isNone = false) named := by
    intro keyword hmem
    have hsome := hnamed keyword (List.mem_of_mem_head? hmem)
    rw [Option.isNone_eq_false_iff, hsome]
  have hall : named.all (fun arg => arg.1.isSome) = true := List.all_eq_true.mpr hnamed
  unfold arguments
  split
  · rename_i heq
    cases heq
    exact absurd rfl ht
  · rw [h]
    simp only
    rw [takeWhile_append_follows hpositional hfollows,
      dropWhile_append_follows hpositional hfollows, if_pos hall, List.map_map]
    congr 3
    exact List.map_id _

/-- The positional arguments and the settings of a call, with its closing bracket. -/
theorem arguments_eq (hargs : List.Forall₂ Operand tss nodes)
    (hsettings : List.Forall₂ Setting uss named)
    (hfuel : (separated Token.comma (tss ++ uss)).length < fuel) (rest : List Token) :
    arguments (expression fuel) (separated .comma (tss ++ uss) ++ .rightParen :: rest) =
      some ((nodes, named), rest) := by
  have hreads : List.Forall₂ (fun ts arg => Starts ts ∧
        Parses (argument (expression fuel)) endsArgument ts arg)
      (tss ++ uss) (nodes.map (fun node => (none, node)) ++ named) := by
    apply List.rel_append
    · rw [List.forall₂_map_right_iff]
      refine forall₂_imp_of_mem (fun ts hts node hnode => ⟨hnode.starts, ?_⟩) hargs
      have hle := length_le_of_mem_separated Token.comma (List.mem_append_left uss hts)
      exact parses_argument hnode (by omega)
    · refine forall₂_imp_of_mem (fun us hus keyword hkeyword => ⟨hkeyword.starts, ?_⟩) hsettings
      have hle := length_le_of_mem_separated Token.comma (List.mem_append_right tss hus)
      exact parses_setting hkeyword (by omega)
  cases hlist : tss ++ uss with
  | nil =>
    obtain ⟨rfl, rfl⟩ := List.append_eq_nil_iff.mp hlist
    cases hargs
    cases hsettings
    rfl
  | cons ts more =>
    rw [hlist] at hreads
    have hread : Parses (sepBy .comma (argument (expression fuel))) (fun t => t = .rightParen)
        (separated .comma (ts :: more)) (nodes.map (fun node => (none, node)) ++ named) :=
      parses_sepBy (by simp) (hreads.imp fun _ _ h => h.2) (List.cons_ne_nil _ _)
    have hsep := hread (.rightParen :: rest) fun t ht => by
      cases ht
      rfl
    obtain ⟨t, us, rfl, ht⟩ : Starts ts := by
      generalize nodes.map (fun node => (none, node)) ++ named = args at hreads
      cases hreads with
      | cons h _ => exact h.1
    exact arguments_of_sepBy (fun heq => ht (by simp [heq])) hsep (Setting.isSome hsettings)

theorem operand_call (id : String) (hargs : List.Forall₂ Operand tss nodes)
    (hsettings : List.Forall₂ Setting uss named) :
    Operand (.name id :: .leftParen :: (separated .comma (tss ++ uss) ++ [.rightParen]))
      (.call (.name id) nodes named) where
  starts := ⟨.name id, _, rfl, by simp⟩
  parses fuel hfuel := by
    refine parses_factor (fun rest hrest => ?_) (by simp)
    simp only [List.length_cons, List.length_append] at hfuel
    have hcall := arguments_eq hargs hsettings (by omega : _ < fuel) rest
    rw [List.cons_append, List.cons_append, List.append_assoc, List.singleton_append]
    rw [primary, atom]
    simp only [Option.bind_eq_bind, Option.bind_some, List.length_cons]
    rw [calls, hcall]
    exact calls_of_follows hrest

end Grammar

end ComplyLayer
