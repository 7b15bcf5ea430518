import ComplyLayer.Verify.Reading

/-!
# The builder's renderer

`Structured.tree` is the tree of a structured rule, read off the JSON alone. A renderer that is
faithful writes text that Python reads as that tree: it does unless a name is a keyword of Python
(`denotation_eq_some_iff`).
-/

namespace ComplyLayer

open Theory Parser

/-! ## The tree of a structured rule -/

namespace Structured

mutual
/-- A number, a text or a list. -/
def literalTree : Value → Option Node
  | .int n => some (if n < 0 then .unaryOp .uSub (.constant (.int n.natAbs)) else .constant (.int n))
  | .str s => some (.constant (.str s))
  | .list items => (literalTrees items).map .list
  | _ => none

def literalTrees : List Value → Option (List Node)
  | [] => some []
  | item :: items => do
    let node ← literalTree item
    let nodes ← literalTrees items
    some (node :: nodes)
end

/-- What an object is, by the keys it carries. -/
def kinds (fields : List (String × Value)) : List String :=
  ["all", "any", "not", "call", "fact"].filter fun key => (fields.lookup key).isSome

def factTree (fields : List (String × Value)) : Option Node :=
  match fields.lookup "fact" with
  | some (.str name) => some (.name name)
  | _ => none

section
variable (valueTree : Value → Option Node)

def callTree (fields : List (String × Value)) : Option Node :=
  match fields.lookup "call", (fields.lookup "args").getD (.dict []),
    (fields.lookup "positional").getD (.list []) with
  | some (.str name), .dict args, .list positional => do
    let values ← positional.mapM valueTree
    let settings ← args.mapM fun p => (valueTree p.2).map fun value => (some p.1, value)
    some (.call (.name name) values settings)
  | _, _, _ => none

/-- A fact or a call. -/
def operandTree (fields : List (String × Value)) : Option Node :=
  match kinds fields with
  | ["fact"] => factTree fields
  | ["call"] => callTree valueTree fields
  | _ => none

/-- An operand alone, or compared with a value. -/
def comparisonTree (operand : Node) (fields : List (String × Value)) : Option Node :=
  match fields.lookup "op", fields.lookup "value" with
  | none, _ => some operand
  | some (.str op), some value => do
    let op ← cmpOp? op
    let right ← valueTree value
    some (.compare operand [(op, right)])
  | _, _ => none
where
  cmpOp? : String → Option CmpOp
    | ">" => some .gt
    | ">=" => some .gtE
    | "<" => some .lt
    | "<=" => some .ltE
    | "==" => some .eq
    | "!=" => some .notEq
    | "in" => some .in
    | "not in" => some .notIn
    | _ => none

end

/-- A literal, or an operand that is not compared. -/
def valueTree : Nat → Value → Option Node
  | 0, .dict _ => none
  | left + 1, .dict fields =>
    if (fields.lookup "op").isSome then none else operandTree (valueTree left) fields
  | _, value => literalTree value

/-- All parts of a group, of which there is at least one. A group of one part is that part. -/
def groupTree (tree : Value → Option Node) (op : BoolOperator) : Value → Option Node
  | .list (part :: parts) => ((part :: parts).mapM tree).map (Grammar.joined op)
  | _ => none

/-- The tree of a structured rule with at most as many levels as the fuel. An object is one thing:
there is no tree for one that carries the keys of two, or the operator of a comparison where there
is none. -/
def tree : Nat → Value → Option Node
  | left + 1, .dict fields =>
    match kinds fields, fields.lookup "op" with
    | ["all"], none => (fields.lookup "all").bind (groupTree (tree left) .and)
    | ["any"], none => (fields.lookup "any").bind (groupTree (tree left) .or)
    | ["not"], none => ((fields.lookup "not").bind (tree left)).map (.unaryOp .not)
    | [_], _ => do
      let operand ← operandTree (valueTree left) fields
      comparisonTree (valueTree left) operand fields
    | _, _ => none
  | _, _ => none

end Structured

/-! ## Names -/

/-- The node is the name, or a call with a setting of it. -/
def Node.IsNamed (id : String) : Node → Prop
  | .name id' => id' = id
  | .call _ _ keywords => some id ∈ keywords.map Prod.fst
  | _ => False

/-- No name within the tree is a keyword of the language. -/
def Node.Unreserved (n : Node) : Prop :=
  ∀ id ∈ kwlist, ∀ m : Node, m.Under n → ¬ m.IsNamed id

theorem Node.Unreserved.child {n c : Node} (h : n.Unreserved) (hc : c ∈ n.children) :
    c.Unreserved :=
  fun id hid m hm => h id hid m (.child hc hm)

theorem Node.Unreserved.name {id : String} (h : (Node.name id).Unreserved) : id ∉ kwlist :=
  fun hid => h id hid _ .refl rfl

theorem Node.unreserved_of_children {n : Node} (h : ∀ id ∈ kwlist, ¬ n.IsNamed id)
    (hchildren : ∀ c ∈ n.children, c.Unreserved) : n.Unreserved := by
  intro id hid m hm
  cases hm with
  | refl => exact h id hid
  | child hc hm => exact hchildren _ hc id hid m hm

theorem Node.Unreserved.name_of_call {id : String}
    (h : (Node.call (.name id) args settings).Unreserved) : id ∉ kwlist :=
  (h.child List.mem_cons_self).name

theorem Node.Unreserved.setting {func : Node} {id : String}
    (h : (Node.call func args settings).Unreserved)
    (hmem : (some id, value) ∈ settings) : id ∉ kwlist :=
  fun hid => h id hid _ .refl (List.mem_map_of_mem (f := Prod.fst) hmem)

theorem Node.Unreserved.joined {op : BoolOperator} (h : (Grammar.joined op nodes).Unreserved) :
    ∀ n ∈ nodes, n.Unreserved := by
  intro n hn
  unfold Grammar.joined at h
  split at h
  · cases List.mem_singleton.mp hn
    exact h
  · exact h.child hn

/-! ## Pieces of rendered text -/

namespace Grammar

/-- The text is read as the node where the grammar has `level`. -/
def Piece (level : List Token → α → Prop) (text : String) (node : α) : Prop :=
  ∃ ts, Lexes text.toList ts ∧ level ts node

theorem Piece.imp {level level' : List Token → α → Prop}
    (himp : ∀ ts, level ts node → level' ts node) (h : Piece level text node) :
    Piece level' text node := by
  obtain ⟨ts, hlex, hlevel⟩ := h
  exact ⟨ts, hlex, himp ts hlevel⟩

/-- The tokens of each text, side by side. -/
theorem pieces {level : List Token → α → Prop} (h : List.Forall₂ (Piece level) texts nodes) :
    ∃ tss, List.Forall₂ (fun text ts => Lexes (String.toList text) ts) texts tss ∧
      List.Forall₂ level tss nodes := by
  induction h with
  | nil => exact ⟨[], .nil, .nil⟩
  | cons hpiece _ ih =>
    obtain ⟨ts, hlex, hlevel⟩ := hpiece
    obtain ⟨tss, hlexes, hlevels⟩ := ih
    exact ⟨ts :: tss, .cons hlex hlexes, .cons hlevel hlevels⟩

/-- Texts with a separator between them. -/
theorem lexes_intercalate {sep : String} (hsep : sep.toList = c :: cs) (hc : isBoundary c)
    (hopens : Opens (c :: cs) [t])
    (h : List.Forall₂ (fun text ts => Lexes (String.toList text) ts) texts tss) :
    Lexes (sep.intercalate texts).toList (separated t tss) := by
  induction h with
  | nil => exact lexes_nil
  | @cons text ts texts tss hlex hmore ih =>
    cases hmore with
    | nil =>
      rw [String.intercalate_singleton, separated_singleton]
      exact hlex
    | @cons text' ts' texts tss hlex' hmore =>
      rw [String.intercalate_cons_cons, String.toList_append, String.toList_append, hsep]
      have hjoin := hlex.join hopens hc ih
      simpa [separated, afterSep] using hjoin

/-! ### Operators -/

theorem opens_word (word : String) (hstart : word.toList = c :: cs) (hc : isWordStart c = true)
    (hcs : cs.all isWordChar = true) : Opens (' ' :: (word.toList ++ [' '])) [wordToken word] :=
  opens_space.append (lexes_word hstart hc hcs).opens

theorem opens_symbol (cs : List Char) (hspace : cs.head? ≠ some ' ') (hne : cs ≠ [])
    (h : ∀ rest, nextToken (cs ++ ' ' :: rest) = some (t, ' ' :: rest)) :
    Opens (' ' :: (cs ++ [' '])) [t] := by
  have hopens : Opens (cs ++ [' ']) [t] := fun rest => ?_
  · exact opens_space.append hopens
  rw [List.append_assoc, List.singleton_append,
    tokenize_of_nextToken (h rest) (by rwa [List.head?_append_of_ne_nil _ hne])]
  rfl

theorem opens_and : Opens " and ".toList [.and] :=
  opens_word "and" rfl rfl rfl

theorem opens_or : Opens " or ".toList [.or] :=
  opens_word "or" rfl rfl rfl

theorem opens_in : Opens " in ".toList [.in] :=
  opens_word "in" rfl rfl rfl

theorem opens_not_in : Opens " not in ".toList [.not, .in] :=
  have hnot : Opens " not ".toList [.not] := opens_word "not" rfl rfl rfl
  have hin : Lexes "in".toList [.in] := lexes_word rfl rfl rfl
  hnot.append hin.opens

theorem opens_operator {cmpOp : CmpOp} (h : Structured.comparisonTree.cmpOp? op = some cmpOp) :
    Opens (' ' :: (op.toList ++ [' '])) (cmpTokens cmpOp) := by
  unfold Structured.comparisonTree.cmpOp? at h
  split at h <;> cases h
  case h_7 => exact opens_in
  case h_8 => exact opens_not_in
  case h_1 => exact opens_symbol ['>'] (by decide) (by decide) fun _ => rfl
  case h_2 => exact opens_symbol ['>', '='] (by decide) (by decide) fun _ => rfl
  case h_3 => exact opens_symbol ['<'] (by decide) (by decide) fun _ => rfl
  case h_4 => exact opens_symbol ['<', '='] (by decide) (by decide) fun _ => rfl
  case h_5 => exact opens_symbol ['=', '='] (by decide) (by decide) fun _ => rfl
  case h_6 => exact opens_symbol ['!', '='] (by decide) (by decide) fun _ => rfl

/-! ### Names and literals -/

theorem isWordChar_of_mem_identifier (h : (RuleValidator.isAsciiLetter d ||
    ('0' ≤ d && d ≤ '9') || d == '_') = true) : isWordChar d = true := by
  simp only [Bool.or_eq_true, Bool.and_eq_true, decide_eq_true_eq] at h
  simp only [isWordChar, isWordStart, Bool.or_eq_true, Char.isDigit, Bool.and_eq_true,
    decide_eq_true_eq]
  rcases h with (h | h) | h
  · exact .inl (.inl h)
  · exact .inr h
  · exact .inl (.inr h)

theorem wordToken_of_not_mem {id : String} (h : id ∉ kwlist) : wordToken id = .name id := by
  unfold wordToken
  split
  case h_8 => exact if_neg h
  all_goals exact absurd (by decide) h

theorem lexes_identifier {id : String} (h : RuleValidator.isAsciiIdentifier id = true)
    (hid : id ∉ kwlist) : Lexes id.toList [.name id] := by
  unfold RuleValidator.isAsciiIdentifier at h
  split at h
  · cases h
  · rename_i c cs heq
    rw [Bool.and_eq_true, List.all_eq_true] at h
    rw [← wordToken_of_not_mem hid]
    apply lexes_word heq
    · rw [isWordStart, h.1, Bool.true_or]
    · rw [List.all_eq_true]
      exact fun d hd => isWordChar_of_mem_identifier (h.2 d hd)

theorem piece_name {id : String} (h : RuleValidator.isAsciiIdentifier id = true)
    (hid : id ∉ kwlist) : Piece Operand id (.name id) :=
  ⟨_, lexes_identifier h hid, operand_name id⟩

theorem lexes_commas (h : List.Forall₂ (fun text ts => Lexes (String.toList text) ts) texts tss) :
    Lexes (", ".intercalate texts).toList (separated .comma tss) :=
  have hsep : ", ".toList = [',', ' '] := rfl
  lexes_intercalate hsep (by simp [isBoundary]) opens_comma h

theorem piece_list (h : List.Forall₂ (Piece Operand) texts nodes) :
    Piece Operand ("[" ++ ", ".intercalate texts ++ "]") (.list nodes) := by
  obtain ⟨tss, hlexes, hitems⟩ := pieces h
  have hclose := (lexes_commas hlexes).close (by simp [isBoundary]) opens_rightBracket
  refine ⟨_, ?_, operand_list hitems⟩
  rw [String.append_assoc, String.toList_append, String.toList_append]
  exact (opens_leftBracket.append hclose).all

theorem opens_leftParen_after {id : String} (h : RuleValidator.isAsciiIdentifier id = true)
    (hid : id ∉ kwlist) : Opens (id ++ "(").toList [.name id, .leftParen] := by
  have hparen : "(".toList = ['('] := rfl
  rw [String.toList_append, hparen]
  exact (lexes_identifier h hid).close (by simp [isBoundary]) opens_leftParen

theorem piece_call {id : String} (h : RuleValidator.isAsciiIdentifier id = true)
    (hid : id ∉ kwlist) (hargs : List.Forall₂ (Piece Operand) args nodes)
    (hsettings : List.Forall₂ (Piece Setting) settings named) :
    Piece Operand (id ++ "(" ++ ", ".intercalate (args ++ settings) ++ ")")
      (.call (.name id) nodes named) := by
  obtain ⟨tss, hlexes, hoperands⟩ := pieces hargs
  obtain ⟨uss, hlexes', hnamed⟩ := pieces hsettings
  have hlex := lexes_commas (List.rel_append hlexes hlexes')
  have hclose := hlex.close (by simp [isBoundary]) opens_rightParen
  refine ⟨_, ?_, operand_call id hoperands hnamed⟩
  rw [String.append_assoc, String.toList_append, String.toList_append (s := _) (t := ")")]
  exact ((opens_leftParen_after h hid).append hclose).all

theorem nextToken_equal (h : cs.head? ≠ some '=') : nextToken ('=' :: cs) = some (.equal, cs) := by
  cases cs with
  | nil => rfl
  | cons c cs =>
    have hc : c ≠ '=' := fun heq => h (congrArg some heq)
    change symbol? ('=' :: c :: cs) = _
    unfold symbol?
    split <;> simp_all

theorem first_of_equal (h : tokenize ('=' :: cs) = some ts) :
    ts.head? = some .equal ∨ ts.head? = some (.cmp .eq) := by
  have hspace : ('=' :: cs).head? ≠ some ' ' := by
    intro heq
    cases heq
  by_cases hnext : cs.head? = some '='
  · obtain ⟨rest, rfl⟩ : ∃ rest, cs = '=' :: rest := List.head?_eq_some_iff.mp hnext
    have hsymbol : nextToken ('=' :: '=' :: rest) = some (.cmp .eq, rest) := rfl
    rw [tokenize_of_nextToken hsymbol hspace] at h
    obtain ⟨us, -, rfl⟩ := Option.map_eq_some_iff.mp h
    exact .inr rfl
  · rw [tokenize_of_nextToken (nextToken_equal hnext) hspace] at h
    obtain ⟨us, -, rfl⟩ := Option.map_eq_some_iff.mp h
    exact .inl rfl

/-- No operand starts with the sign that would make another operator of the one before it. -/
theorem ne_equal_of_starts (h : Lexes cs ts) (hstarts : Starts ts) :
    ∃ c cs', cs = c :: cs' ∧ c ≠ '=' := by
  obtain ⟨t, us, rfl, ht⟩ := hstarts
  have htokens := h.tokenize_eq
  cases cs with
  | nil => cases htokens
  | cons c cs =>
    refine ⟨c, cs, rfl, ?_⟩
    rintro rfl
    rcases first_of_equal htokens with heq | heq
    · cases heq
      simp at ht
    · cases heq
      simp at ht

theorem piece_setting {key : String} (h : RuleValidator.isAsciiIdentifier key = true)
    (hkey : key ∉ kwlist) (hvalue : Piece Operand text node) :
    Piece Setting (key ++ "=" ++ text) (some key, node) := by
  obtain ⟨ts, hlex, hoperand⟩ := hvalue
  refine ⟨.name key :: .equal :: ts, ?_, key, ts, rfl, rfl, hoperand⟩
  intro rest hrest
  obtain ⟨c, cs, heq, hc⟩ := ne_equal_of_starts hlex hoperand.starts
  have hhead : (text.toList ++ rest).head? ≠ some '=' := by
    rw [heq]
    exact fun hhead => hc (Option.some.inj hhead)
  have hnext := tokenize_of_nextToken (nextToken_equal hhead) fun h => by cases h
  have hsign : "=".toList = ['='] := rfl
  rw [String.toList_append, String.toList_append, List.append_assoc, List.append_assoc, hsign,
    List.singleton_append,
    lexes_identifier h hkey _ (follows_cons (by simp [isBoundary]) _), hnext, hlex rest hrest]
  cases tokenize rest <;> rfl

theorem piece_quoted (h : Structured.quoted s = .ok text) :
    Piece Operand text (.constant (.str s)) := by
  unfold Structured.quoted at h
  split at h
  · cases h
  · rename_i hsafe
    cases h
    obtain ⟨-, hchars, hquote, hbackslash⟩ : ¬ 100 < s.length ∧ Structured.isSafeText s = true ∧
        '\'' ∉ s.toList ∧ '\\' ∉ s.toList := by tauto
    rw [Structured.isSafeText, List.all_eq_true] at hchars
    refine ⟨_, lexes_text fun c hc => ?_, operand_text s⟩
    have hne : c ≠ '\'' ∧ c ≠ '\\' := ⟨fun heq => hquote (heq ▸ hc), fun heq => hbackslash (heq ▸ hc)⟩
    simpa [isTextChar, hne] using hchars c hc

theorem piece_int (n : Int) : Piece Operand (toString n)
    (if n < 0 then .unaryOp .uSub (.constant (.int n.natAbs)) else .constant (.int n)) := by
  cases n with
  | ofNat n =>
    have hn : ¬ Int.ofNat n < 0 := (Int.natCast_nonneg n).not_gt
    rw [if_neg hn]
    exact ⟨[.number n], lexes_number n, operand_number n⟩
  | negSucc n =>
    have htext : (toString (Int.negSucc n)).toList = '-' :: (n + 1).repr.toList := by
      change ("-" ++ (n + 1).repr).toList = _
      rw [String.toList_append]
      rfl
    rw [if_pos (Int.negSucc_lt_zero n)]
    refine ⟨[.minus, .number (n + 1)], ?_, operand_negative (n + 1)⟩
    rw [htext]
    exact lexes_negative (n + 1)

end Grammar

namespace Structured

open Grammar

theorem literalTrees_eq_some_iff :
    literalTrees items = some nodes ↔
      List.Forall₂ (fun item node => literalTree item = some node) items nodes := by
  induction items generalizing nodes with
  | nil =>
    rw [literalTrees, List.forall₂_nil_left_iff, Option.some_inj]
    exact eq_comm
  | cons item items ih =>
    rw [literalTrees, List.forall₂_cons_left_iff]
    constructor
    · intro h
      obtain ⟨node, hnode, h⟩ := Option.bind_eq_some_iff.mp h
      obtain ⟨more, hmore, h⟩ := Option.bind_eq_some_iff.mp h
      exact ⟨node, more, hnode, ih.mp hmore, (Option.some.inj h).symm⟩
    · rintro ⟨node, more, hnode, hmore, rfl⟩
      rw [hnode, ih.mpr hmore]
      rfl

theorem piece_literal (h : literal left value = .ok text) (ht : literalTree value = some node) :
    Piece Operand text node := by
  induction left generalizing value text node with
  | zero => cases h
  | succ left ih =>
    cases value with
    | int n =>
      rw [literal] at h
      split at h
      · cases h
      · cases h
        cases ht
        exact piece_int n
    | str s =>
      cases ht
      exact piece_quoted h
    | list items =>
      obtain ⟨nodes, hnodes, rfl⟩ := Option.map_eq_some_iff.mp ht
      obtain ⟨parts, hparts, h⟩ := bind_eq_ok.mp h
      cases h
      refine piece_list (forall₂_of_common (fun item part node _ hpart hnode => ?_)
        (mapM_eq_ok_iff.mp hparts) (literalTrees_eq_some_iff.mp hnodes))
      exact ih hpart hnode
    | _ => cases ht

theorem identifier_eq_ok {py : Python} {id : String} (h : identifier py (.str id) = .ok name) :
    name = id ∧ RuleValidator.isAsciiIdentifier id = true := by
  rw [identifier] at h
  split at h
  · cases h
    exact ⟨rfl, ‹_›⟩
  · split at h <;> cases h

section
variable {py : Python} {left : Nat}
  (hvalue : ∀ {value text node}, renderValue py left value = .ok text →
    valueTree left value = some node → node.Unreserved → Piece Operand text node)
include hvalue

/-- A setting that is no object is a literal at any depth. -/
theorem piece_argument {setting : String × Value} {keyword : Option String × Node}
    (h : renderSetting py (renderValue py left) setting = .ok text)
    (ht : (valueTree left setting.2).map (fun value => (some setting.1, value)) = some keyword)
    (hkey : setting.1 ∉ kwlist) (hnode : keyword.2.Unreserved) : Piece Setting text keyword := by
  obtain ⟨key, value⟩ := setting
  obtain ⟨node, htree, rfl⟩ := Option.map_eq_some_iff.mp ht
  cases value with
  | dict fields =>
    obtain ⟨name, hname, h⟩ := bind_eq_ok.mp h
    obtain ⟨rendered, hrendered, h⟩ := bind_eq_ok.mp h
    cases h
    obtain ⟨rfl, hascii⟩ := identifier_eq_ok hname
    exact piece_setting hascii hkey (hvalue hrendered htree hnode)
  | _ =>
    obtain ⟨name, hname, h⟩ := bind_eq_ok.mp h
    obtain ⟨rendered, hrendered, h⟩ := bind_eq_ok.mp h
    cases h
    obtain ⟨rfl, hascii⟩ := identifier_eq_ok hname
    refine piece_setting hascii hkey (piece_literal hrendered ?_)
    cases left <;> exact htree

theorem piece_renderCall (hname : fields.lookup "call" = some name)
    (h : renderCall py (renderValue py left) name fields = .ok text)
    (ht : callTree (valueTree left) fields = some node) (hnode : node.Unreserved) :
    Piece Operand text node := by
  rw [callTree, hname] at ht
  split at ht
  · rename_i id args positional hid hargs hpositional
    cases hid
    obtain ⟨values, hvalues, ht⟩ := Option.bind_eq_some_iff.mp ht
    obtain ⟨named, hnamed, ht⟩ := Option.bind_eq_some_iff.mp ht
    cases ht
    rw [renderCall, hargs, hpositional] at h
    obtain ⟨name, hid, h⟩ := bind_eq_ok.mp h
    obtain ⟨_, hargs', h⟩ := bind_eq_ok.mp h
    cases hargs'
    obtain ⟨settings, hsettings, h⟩ := bind_eq_ok.mp h
    obtain ⟨_, hpositional', h⟩ := bind_eq_ok.mp h
    cases hpositional'
    obtain ⟨texts, htexts, h⟩ := bind_eq_ok.mp h
    cases h
    obtain ⟨rfl, hascii⟩ := identifier_eq_ok hid
    refine piece_call hascii hnode.name_of_call ?_ ?_
    · refine forall₂_of_common (fun value text node hmem htext htree => ?_)
        (mapM_eq_ok_iff.mp htexts) (mapM_eq_some_iff.mp hvalues)
      exact hvalue htext htree (hnode.child (by simp [Node.children, hmem]))
    · refine forall₂_of_common (fun setting text keyword hmem htext htree => ?_)
        (mapM_eq_ok_iff.mp hsettings) (mapM_eq_some_iff.mp hnamed)
      refine piece_argument hvalue htext htree ?_ (hnode.child ?_)
      · obtain ⟨node, -, rfl⟩ := Option.map_eq_some_iff.mp htree
        exact hnode.setting hmem
      · exact List.mem_cons_of_mem _ (List.mem_append_right _ (List.mem_map_of_mem hmem))
  · cases ht

theorem piece_renderComparison (hoperand : Piece Operand operandText operand)
    (h : renderComparison (renderValue py left) operandText fields = .ok text)
    (ht : comparisonTree (valueTree left) operand fields = some node) (hnode : node.Unreserved) :
    Piece Part text node := by
  unfold renderComparison at h
  unfold comparisonTree at ht
  split at ht
  · rename_i hop
    cases ht
    rw [hop] at h
    cases h
    exact hoperand.imp fun _ h => h.part
  · rename_i op value hop hlookup
    obtain ⟨cmpOp, hcmp, ht⟩ := Option.bind_eq_some_iff.mp ht
    obtain ⟨right, hright, ht⟩ := Option.bind_eq_some_iff.mp ht
    cases ht
    rw [hop, hlookup] at h
    simp only at h
    split at h
    · obtain ⟨rendered, hrendered, h⟩ := bind_eq_ok.mp h
      cases h
      have hchild : right.Unreserved := hnode.child (by simp [Node.children])
      obtain ⟨us, hlex', hoperand'⟩ := hvalue hrendered hright hchild
      obtain ⟨ts, hlex, hoperand⟩ := hoperand
      refine ⟨_, ?_, part_comparison hoperand cmpOp hoperand'⟩
      have htext : (operandText ++ " " ++ op ++ " " ++ rendered).toList =
          operandText.toList ++ (' ' :: (op.toList ++ [' '])) ++ rendered.toList := by
        simp
      rw [htext]
      exact hlex.join (opens_operator hcmp) (by simp [isBoundary]) hlex'
    · cases h
  · cases ht

end

theorem lookup_of_kinds (h : kinds fields = [kind]) : ∃ value, fields.lookup kind = some value := by
  have hmem : kind ∈ kinds fields := by
    rw [h]
    exact List.mem_singleton_self _
  exact Option.isSome_iff_exists.mp (List.mem_filter.mp hmem).2

theorem lookup_eq_none_of_kinds (key : String) (h : kinds fields = [kind]) (hne : key ≠ kind)
    (hkey : key ∈ ["all", "any", "not", "call", "fact"]) : fields.lookup key = none := by
  rw [← Option.not_isSome_iff_eq_none]
  intro hsome
  have hmem : key ∈ kinds fields := List.mem_filter.mpr ⟨hkey, hsome⟩
  rw [h] at hmem
  exact hne (List.mem_singleton.mp hmem)

theorem piece_fact {py : Python} (hname : fields.lookup "fact" = some name)
    (h : identifier py name = .ok text) (ht : factTree fields = some node)
    (hnode : node.Unreserved) : Piece Operand text node := by
  rw [factTree, hname] at ht
  split at ht
  · rename_i id hid
    cases hid
    cases ht
    obtain ⟨rfl, hascii⟩ := identifier_eq_ok h
    exact piece_name hascii hnode.name
  · cases ht

theorem piece_renderValue {py : Python} (h : renderValue py left value = .ok text)
    (ht : valueTree left value = some node) (hnode : node.Unreserved) :
    Piece Operand text node := by
  induction left generalizing value text node with
  | zero => cases h
  | succ left ih =>
    cases value with
    | dict fields =>
      rw [valueTree] at ht
      rw [renderValue] at h
      split at ht
      · cases ht
      · unfold operandTree at ht
        split at ht
        · rename_i hkinds
          obtain ⟨name, hname⟩ := lookup_of_kinds hkinds
          rw [lookup_eq_none_of_kinds "call" hkinds (by decide) (by decide), hname] at h
          exact piece_fact hname h ht hnode
        · rename_i hkinds
          obtain ⟨name, hname⟩ := lookup_of_kinds hkinds
          rw [hname] at h
          exact piece_renderCall ih hname h ht hnode
        · cases ht
    | _ => exact piece_literal h ht

/-! ### Rules -/

/-- Where a rule is read: the top level is not in a group. -/
def level : Bool → List Token → Node → Prop
  | true => Whole
  | false => Part

theorem level_of_part (top : Bool) (h : Piece Part text node) : Piece (level top) text node := by
  cases top with
  | true => exact h.imp fun _ hpart => hpart.whole
  | false => exact h

theorem piece_parenthesised (h : Piece Whole text node) : Piece Part ("(" ++ text ++ ")") node := by
  obtain ⟨ts, hlex, hwhole⟩ := h
  refine ⟨_, ?_, (operand_group hwhole).part⟩
  have hclose := hlex.close (by simp [isBoundary]) opens_rightParen
  rw [String.append_assoc, String.toList_append, String.toList_append]
  exact (opens_leftParen.append hclose).all

theorem piece_not (h : Piece Whole text node) :
    Piece Part ("not (" ++ text ++ ")") (.unaryOp .not node) := by
  obtain ⟨ts, hlex, hwhole⟩ := h
  have hnot : Lexes "not".toList [.not] := lexes_word rfl rfl rfl
  have hopen : Opens "not (".toList [.not, .leftParen] := hnot.opens.append opens_leftParen
  have hclose := hlex.close (by simp [isBoundary]) opens_rightParen
  refine ⟨_, ?_, part_not hwhole⟩
  rw [String.append_assoc, String.toList_append, String.toList_append]
  exact (hopen.append hclose).all

/-- The words between the parts of a group. -/
def joiner : BoolOperator → String
  | .and => "and"
  | .or => "or"

theorem piece_group (op : BoolOperator) (h : List.Forall₂ (Piece Part) texts nodes)
    (hne : texts ≠ []) :
    Piece Whole ((" " ++ joiner op ++ " ").intercalate texts) (joined op nodes) := by
  obtain ⟨tss, hlexes, hparts⟩ := pieces h
  have htss : tss ≠ [] := by
    rintro rfl
    cases hlexes
    exact hne rfl
  cases op with
  | and =>
    have hsep : (" " ++ joiner .and ++ " ").toList = ' ' :: "and ".toList := rfl
    exact ⟨_, lexes_intercalate hsep (by simp [isBoundary]) opens_and hlexes, whole_and hparts htss⟩
  | or =>
    have hsep : (" " ++ joiner .or ++ " ").toList = ' ' :: "or ".toList := rfl
    exact ⟨_, lexes_intercalate hsep (by simp [isBoundary]) opens_or hlexes, whole_or hparts htss⟩

theorem unreserved_operand {valueTree : Value → Option Node}
    (h : comparisonTree valueTree operand fields = some node) (hnode : node.Unreserved) :
    operand.Unreserved := by
  unfold comparisonTree at h
  split at h
  · cases h
    exact hnode
  · obtain ⟨op, -, h⟩ := Option.bind_eq_some_iff.mp h
    obtain ⟨right, -, h⟩ := Option.bind_eq_some_iff.mp h
    cases h
    exact hnode.child List.mem_cons_self
  · cases h

section
variable {py : Python} {left : Nat}
  (hpart : ∀ {value text node}, render py left false value = .ok text →
    tree left value = some node → node.Unreserved → Piece Part text node)
include hpart

theorem piece_renderGroup (op : BoolOperator) (top : Bool)
    (h : renderGroup (render py left false) parts (joiner op) top = .ok text)
    (ht : groupTree (tree left) op parts = some node) (hnode : node.Unreserved) :
    Piece (level top) text node := by
  unfold groupTree at ht
  split at ht
  · rename_i part parts
    obtain ⟨nodes, hnodes, rfl⟩ := Option.map_eq_some_iff.mp ht
    rw [renderGroup] at h
    obtain ⟨rendered, hrendered, h⟩ := bind_eq_ok.mp h
    have hpieces : List.Forall₂ (Piece Part) rendered nodes := by
      refine forall₂_of_common (fun value text node hmem htext htree => ?_)
        (mapM_eq_ok_iff.mp hrendered) (mapM_eq_some_iff.mp hnodes)
      exact hpart htext htree (hnode.joined node hmem)
    split at h
    · cases h
      cases hpieces with
      | cons hpiece hmore =>
        cases hmore
        exact level_of_part top hpiece
    · have hne : rendered ≠ [] := by
        rintro rfl
        cases mapM_eq_ok_iff.mp hrendered
      have hgroup := piece_group op hpieces hne
      cases h
      cases top with
      | true => exact hgroup
      | false => exact piece_parenthesised hgroup
  · cases ht

/-- One level of the renderer, where `_render` reads the object as what it is. -/
theorem piece_render_step (top : Bool) (h : render py (left + 1) top value = .ok text)
    (ht : tree (left + 1) value = some node) (hnode : node.Unreserved) :
    Piece (level top) text node := by
  cases value with
  | dict fields =>
    rw [tree] at ht
    rw [render] at h
    split at ht
    · rename_i hkinds hop
      obtain ⟨parts, hparts, ht⟩ := Option.bind_eq_some_iff.mp ht
      rw [hparts] at h
      exact piece_renderGroup hpart .and top h ht hnode
    · rename_i hkinds hop
      obtain ⟨parts, hparts, ht⟩ := Option.bind_eq_some_iff.mp ht
      rw [lookup_eq_none_of_kinds "all" hkinds (by decide) (by decide), hparts] at h
      exact piece_renderGroup hpart .or top h ht hnode
    · rename_i hkinds hop
      obtain ⟨inner, hinner, rfl⟩ := Option.map_eq_some_iff.mp ht
      obtain ⟨part, hlookup, htree⟩ := Option.bind_eq_some_iff.mp hinner
      rw [lookup_eq_none_of_kinds "all" hkinds (by decide) (by decide),
        lookup_eq_none_of_kinds "any" hkinds (by decide) (by decide), hlookup] at h
      obtain ⟨rendered, hrendered, h⟩ := bind_eq_ok.mp h
      cases h
      have hinner := hpart hrendered htree (hnode.child (List.mem_singleton_self _))
      exact level_of_part top (piece_not (hinner.imp fun _ h => h.whole))
    · obtain ⟨operand, hoperand, hcomparison⟩ := Option.bind_eq_some_iff.mp ht
      apply level_of_part
      unfold operandTree at hoperand
      split at hoperand
      · rename_i hkinds
        obtain ⟨name, hname⟩ := lookup_of_kinds hkinds
        rw [lookup_eq_none_of_kinds "all" hkinds (by decide) (by decide),
          lookup_eq_none_of_kinds "any" hkinds (by decide) (by decide),
          lookup_eq_none_of_kinds "not" hkinds (by decide) (by decide),
          lookup_eq_none_of_kinds "call" hkinds (by decide) (by decide), hname] at h
        obtain ⟨rendered, hrendered, h⟩ := bind_eq_ok.mp h
        have hpiece := piece_fact hname hrendered hoperand (unreserved_operand hcomparison hnode)
        exact piece_renderComparison piece_renderValue hpiece h hcomparison hnode
      · rename_i hkinds
        obtain ⟨name, hname⟩ := lookup_of_kinds hkinds
        rw [lookup_eq_none_of_kinds "all" hkinds (by decide) (by decide),
          lookup_eq_none_of_kinds "any" hkinds (by decide) (by decide),
          lookup_eq_none_of_kinds "not" hkinds (by decide) (by decide), hname] at h
        obtain ⟨rendered, hrendered, h⟩ := bind_eq_ok.mp h
        have hpiece := piece_renderCall piece_renderValue hname hrendered hoperand
          (unreserved_operand hcomparison hnode)
        exact piece_renderComparison piece_renderValue hpiece h hcomparison hnode
      · cases hoperand
    · cases ht
  | _ => cases ht

end

theorem piece_render {py : Python} (h : render py left false value = .ok text)
    (ht : tree left value = some node) (hnode : node.Unreserved) : Piece Part text node := by
  induction left generalizing value text node with
  | zero => cases h
  | succ left ih => exact piece_render_step ih false h ht hnode

end Structured

/-- A text that is an expression is read as that expression. -/
theorem Grammar.Piece.read (h : Grammar.Piece Grammar.Whole text node) :
    readExpression text = some node := by
  obtain ⟨ts, hlex, hwhole⟩ := h
  have hread := hwhole (ts.length + 1) (Nat.lt_succ_self _) [] follows_nil
  rw [List.append_nil] at hread
  simp only [readExpression, hlex.tokenize_eq, hread, Option.bind_eq_bind, Option.bind_some]

namespace Structured

/-- The tree of a rule that the renderer may accept. -/
def denotation (rule : Value) : Option Node := tree (maxStructuredDepth + 1) rule

/-- What `to_expression` writes is read as the tree of the rule. -/
theorem read_toExpression {py : Python} (h : toExpression py rule = .ok text)
    (ht : denotation rule = some node) (hnode : node.Unreserved) :
    readExpression text = some node := by
  obtain ⟨rendered, hrendered, h⟩ := bind_eq_ok.mp h
  split at h
  · cases h
  · cases h
    exact (piece_render_step piece_render true hrendered ht hnode).read

end Structured

/-! ## The parser of Python -/

/-- What the parser of Python does on a text: it reads what the grammar reads as the grammar reads
it, and no keyword of the language as a name. -/
structure Python.Reads (py : Python) (text : String) : Prop where
  grammar : readExpression text = some node → py.astParse (strip text) = .tree node
  names : py.astParse (strip text) = .tree node → node.Unreserved

/-- The renderer is faithful to a rule exactly when every object within it is one thing, so that
the rule has a tree, and no name in it is a keyword. -/
theorem denotation_eq_some_iff {py : Python} (hpy : py.Reads text)
    (hrender : Structured.toExpression py rule = .ok text)
    (hvalid : validateSource py text = .ok ast) :
    Structured.denotation rule = some ast ↔
      ∃ node, Structured.denotation rule = some node ∧ node.Unreserved := by
  have hparsed := astParse_of_validateSource hvalid
  constructor
  · intro h
    exact ⟨ast, h, hpy.names hparsed⟩
  · rintro ⟨node, hnode, hunreserved⟩
    have hread := hpy.grammar (Structured.read_toExpression hrender hnode hunreserved)
    rw [hparsed] at hread
    cases hread
    exact hnode

/-- The runtime that reads one text, as the grammar does. -/
theorem reads_reading (hread : readExpression text = some node) (hstrip : strip text = text)
    (hnode : node.Unreserved) : (Python.reading text node).Reads text where
  grammar h := by
    rw [hread] at h
    cases h
    rw [hstrip]
    exact if_pos rfl
  names h := by
    rw [hstrip] at h
    change (if text = text then Parsed.tree node else .refused) = _ at h
    rw [if_pos rfl] at h
    cases h
    exact hnode

/-- A rule of two parts, one of them negated. -/
def flaggedOrNotCleared : Value :=
  .dict [("any", .list [.dict [("fact", .str "flagged")],
    .dict [("not", .dict [("fact", .str "cleared")])]])]

/-- `flagged or not (cleared)`. -/
def flaggedOrNotClearedTree : Node :=
  .boolOp .or [.name "flagged", .unaryOp .not (.name "cleared")]

theorem unreserved_name {id : String} (h : id ∉ kwlist) : (Node.name id).Unreserved :=
  Node.unreserved_of_children (fun _ hid heq => h (heq ▸ hid)) nofun

theorem unreserved_flaggedOrNotCleared : flaggedOrNotClearedTree.Unreserved := by
  refine Node.unreserved_of_children (fun _ _ => id) (List.forall_mem_cons.mpr ⟨?_, ?_⟩)
  · exact unreserved_name (by decide)
  · refine List.forall_mem_singleton.mpr (Node.unreserved_of_children (fun _ _ => id) ?_)
    exact List.forall_mem_singleton.mpr (unreserved_name (by decide))

theorem denotation_flaggedOrNotCleared :
    Structured.denotation flaggedOrNotCleared = some flaggedOrNotClearedTree ↔
      ∃ node, Structured.denotation flaggedOrNotCleared = some node ∧ node.Unreserved :=
  have hrender (py : Python) :
      Structured.toExpression py flaggedOrNotCleared = .ok "flagged or not (cleared)" := rfl
  denotation_eq_some_iff
    (reads_reading (Structured.read_toExpression (hrender (.reading "" (.name ""))) rfl
      unreserved_flaggedOrNotCleared) rfl unreserved_flaggedOrNotCleared)
    (hrender _) rfl

/-- The fact `True`, and another one. -/
def trueAndFlagged : Value :=
  .dict [("all", .list [.dict [("fact", .str "True")], .dict [("fact", .str "flagged")]])]

/-- A fact of the name `True` is read as a constant, and its condition is dropped. -/
theorem reads_fact_as_constant :
    ∃ (py : Python) (rule : Value) (text : String) (ast : Node), py.Reads text ∧
      Structured.toExpression py rule = .ok text ∧ validateSource py text = .ok ast ∧
      ast = .boolOp .and [.constant (.bool true), .name "flagged"] ∧
      Structured.denotation rule = some (.boolOp .and [.name "True", .name "flagged"]) ∧
      Structured.denotation rule ≠ some ast := by
  have hnode : (Node.boolOp .and [.constant (.bool true), .name "flagged"]).Unreserved := by
    refine Node.unreserved_of_children (fun _ _ => id) (List.forall_mem_cons.mpr ⟨?_, ?_⟩)
    · exact Node.unreserved_of_children (fun _ _ => id) nofun
    · exact List.forall_mem_singleton.mpr (unreserved_name (by decide))
  have htokens : Grammar.tokenize "True and flagged".toList =
      some [.true, .and, .name "flagged"] := rfl
  have hread : readExpression "True and flagged" =
      some (.boolOp .and [.constant (.bool true), .name "flagged"]) := by
    rw [readExpression, htokens]
    rfl
  exact ⟨.reading "True and flagged" _, trueAndFlagged, "True and flagged", _,
    reads_reading hread rfl hnode, rfl, rfl, rfl, rfl, nofun⟩

end ComplyLayer
