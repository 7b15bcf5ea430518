import ComplyLayer.Audit.Jsonb
import ComplyLayer.Dashboard.Builder
import ComplyLayer.Verify.RuleTrees

/-!
# Answers that restrict the rule

A constructor tests some answers for truth, and the two hours together. An answer that fails the
test is dropped, and the rule is the one of a blank. Every answer restricts the rule exactly when
each optional answer is one that its constructor takes (`restricts_iff_taken`).
-/

namespace ComplyLayer

open Theory Interpreter

/-! ## What the answers ask for -/

namespace Builder

/-- Every answer but the one of a control. -/
def blank (values : Answered) (key : String) : Answered := values.filterKeys fun k => k ≠ key

/-- A count of the transactions above an amount, if one is given. -/
def velocityAsked (values : Answered) : Option Value := do
  let window ← values.get? "window"
  let count ← values.get? "count"
  let bound := (values.get? "min_amount_minor").toList.map fun v => ("min_amount_minor", v)
  pure (.dict [("call", .str "velocity_count"), ("args", .dict (("window", window) :: bound)),
    ("op", .str ">"), ("value", count)])

/-- Before the one hour or after the other, of those that are given. -/
def hoursAsked (start stop : Option Value) : List Value :=
  match start, stop with
  | some start, some stop => [.dict [("any", .list [hourIs "<" start, hourIs ">" stop])]]
  | some start, none => [hourIs "<" start]
  | none, some stop => [hourIs ">" stop]
  | none, none => []

def corridorAsked (values : Answered) : Option Value :=
  let tier := (values.get? "max_kyc_tier").toList.map fun v => factIs "kyc_tier" "<" v
  some (.dict [("all", .list (inList values ::
    (tier ++ hoursAsked (values.get? "from_hour") (values.get? "to_hour"))))])

end Builder

/-- The rule that the answers ask for: what the constructor makes, with every answer taken. -/
def Shape.asked (shape : Shape) : Answered → Option Value :=
  if shape.key = "velocity_count" then Builder.velocityAsked
  else if shape.key = "corridor" then Builder.corridorAsked
  else shape.construct

/-- Every answer is in the rule; the rule matches only where every condition holds that the answers
ask for; and a rule with an optional answer is not the rule with a blank for it. -/
structure Restricts (py : Python) (shape : Shape) (values : Answered) (result : BuildResult) :
    Prop where
  appears : ∀ input ∈ shape.inputs, ∀ v, values.get? input.key = some v →
    v ∈ result.structured.parts
  holds : ∀ ast asked, validateSource py result.expression = .ok ast →
    shape.asked values = some asked → ∀ c limit k, (run c limit ast).run 0 = (.ok true, k) →
    ∀ condition ∈ asked.conjuncts, HoldsIn c limit condition
  optional : ∀ input ∈ shape.inputs, input.required = false → ∀ v,
    values.get? input.key = some v → ∀ result', shape.build py (Builder.blank values input.key) =
      .ok result' → result'.expression ≠ result.expression

/-- The answer is one that its constructor takes: an amount or a tier that is true, an hour where
both are given, a threshold that is not the one of a blank. -/
def Taken (values : Answered) (key : String) (v : Value) : Prop :=
  (key = "min_amount_minor" ∨ key = "max_kyc_tier" → v.truthy = true) ∧
    (key = "from_hour" ∨ key = "to_hour" →
      (Builder.notNone? values "from_hour").isSome = true ∧
        (Builder.notNone? values "to_hour").isSome = true) ∧
    (key = "threshold_fact" → v ≠ .str "reporting_threshold_minor")

/-! ## Blanks -/

namespace Builder

variable {values : Answered} {key : String}

theorem get?_blank_self (values : Answered) (key : String) : (blank values key).get? key = none := by
  rw [blank, Dict.get?_filterKeys]
  simp

theorem get?_blank_of_ne (values : Answered) (h : k ≠ key) :
    (blank values key).get? k = values.get? k := by
  rw [blank, Dict.get?_filterKeys]
  simp [h]

theorem given_eq_true_iff (h : values.get? key = some v) : given values key = v.truthy := by
  rw [given, h]
  rfl

theorem notNone?_eq_some (h : (notNone? values key).isSome = true) :
    ∃ v, values.get? key = some v ∧ notNone? values key = some v := by
  obtain ⟨v, hv⟩ := Option.isSome_iff_exists.mp h
  exact ⟨v, (Option.filter_eq_some_iff.mp hv).1, hv⟩

theorem notNone?_blank_self (values : Answered) (key : String) :
    notNone? (blank values key) key = none := by
  rw [notNone?, get?_blank_self]
  rfl

theorem notNone?_blank_of_ne (values : Answered) (h : k ≠ key) :
    notNone? (blank values key) k = notNone? values k := by
  rw [notNone?, get?_blank_of_ne values h, notNone?]

end Builder

/-! ## Where every answer is taken -/

/-- Every optional answer is taken. -/
def Shape.Taken (shape : Shape) (values : Answered) : Prop :=
  ∀ input ∈ shape.inputs, input.required = false → ∀ v, values.get? input.key = some v →
    ComplyLayer.Taken values input.key v

namespace Shape

theorem asked_velocityCount (h : velocityCount.Taken values) :
    velocityCount.asked values = velocityCount.construct values := by
  have htaken : (if Builder.given values "min_amount_minor" then
      (values.get? "min_amount_minor").toList.map fun v => ("min_amount_minor", v) else []) =
      (values.get? "min_amount_minor").toList.map fun v => ("min_amount_minor", v) := by
    cases hmin : values.get? "min_amount_minor" with
    | none => split <;> rfl
    | some v =>
      have htruthy := (h ⟨"min_amount_minor", false⟩ (by simp [velocityCount]) rfl v hmin).1 (.inl rfl)
      rw [Builder.given_eq_true_iff hmin, if_pos htruthy]
  change Builder.velocityAsked values = Builder.velocityCount values
  simp only [Builder.velocityAsked, Builder.velocityCount, htaken]

theorem asked_corridor (h : corridor.Taken values) :
    corridor.asked values = corridor.construct values := by
  have htier : (if Builder.given values "max_kyc_tier" then
      (values.get? "max_kyc_tier").toList.map fun v => Builder.factIs "kyc_tier" "<" v else []) =
      (values.get? "max_kyc_tier").toList.map fun v => Builder.factIs "kyc_tier" "<" v := by
    cases htier : values.get? "max_kyc_tier" with
    | none => split <;> rfl
    | some v =>
      have htruthy := (h ⟨"max_kyc_tier", false⟩ (by simp [corridor]) rfl v htier).1 (.inr rfl)
      rw [Builder.given_eq_true_iff htier, if_pos htruthy]
  have hboth : (values.get? "from_hour").isSome ∨ (values.get? "to_hour").isSome →
      (Builder.notNone? values "from_hour").isSome = true ∧
        (Builder.notNone? values "to_hour").isSome = true := by
    rintro (hsome | hsome)
    · obtain ⟨v, hv⟩ := Option.isSome_iff_exists.mp hsome
      exact (h ⟨"from_hour", false⟩ (by simp [corridor]) rfl v hv).2.1 (.inl rfl)
    · obtain ⟨v, hv⟩ := Option.isSome_iff_exists.mp hsome
      exact (h ⟨"to_hour", false⟩ (by simp [corridor]) rfl v hv).2.1 (.inr rfl)
  change Builder.corridorAsked values = Builder.corridor values
  rw [Builder.corridorAsked, Builder.corridor, htier]
  by_cases hgiven : (values.get? "from_hour").isSome ∨ (values.get? "to_hour").isSome
  · obtain ⟨hfrom, hto⟩ := hboth hgiven
    obtain ⟨start, hstart, hfrom⟩ := Builder.notNone?_eq_some hfrom
    obtain ⟨stop, hstop, hto⟩ := Builder.notNone?_eq_some hto
    rw [hstart, hstop, hfrom, hto]
    rfl
  · obtain ⟨hfrom, hto⟩ := not_or.mp hgiven
    rw [Option.not_isSome_iff_eq_none] at hfrom hto
    have hnone : Builder.notNone? values "from_hour" = none := by
      rw [Builder.notNone?, hfrom]
      rfl
    rw [hfrom, hto, hnone]
    rfl

theorem asked_of_taken (hshape : shape ∈ shapes) (h : shape.Taken values) :
    shape.asked values = shape.construct values := by
  simp only [shapes, List.mem_cons, List.not_mem_nil, or_false] at hshape
  rcases hshape with rfl | rfl | rfl | rfl | rfl | rfl
  · rfl
  · exact asked_velocityCount h
  · rfl
  · rfl
  · exact asked_corridor h
  · rfl

end Shape

/-! ## Every answer is in the rule -/

theorem Value.mem_parts_self (v : Value) : v ∈ v.parts := by
  rw [parts_eq]
  exact List.mem_cons_self

section
open Builder Value

attribute [local simp] parts partsAll partsEntries mem_parts_self

theorem Builder.mem_parts_fact (v : Value) : v ∈ (fact v).parts := by
  simp [fact]

attribute [local simp] Builder.mem_parts_fact

theorem Builder.mem_parts_amountLimit (h : amountLimit values = some rule)
    (hv : values.get? "subject" = some v ∨ values.get? "limit" = some v) : v ∈ rule.parts := by
  obtain ⟨limit, hlimit, h⟩ := Option.bind_eq_some_iff.mp h
  cases h
  rcases hv with hv | hv
  · simp [hv]
  · rw [hlimit] at hv
    cases hv
    by_cases htext : v.isText
    · simp [htext]
    · simp [htext]

theorem Builder.mem_parts_velocityAsked (h : velocityAsked values = some rule)
    (hv : values.get? "window" = some v ∨ values.get? "count" = some v ∨
      values.get? "min_amount_minor" = some v) : v ∈ rule.parts := by
  obtain ⟨window, hwindow, h⟩ := Option.bind_eq_some_iff.mp h
  obtain ⟨count, hcount, h⟩ := Option.bind_eq_some_iff.mp h
  cases h
  rcases hv with hv | hv | hv
  · rw [hwindow] at hv
    cases hv
    simp
  · rw [hcount] at hv
    cases hv
    simp
  · simp [hv]

theorem Builder.mem_parts_structuring (h : Builder.structuring values = some rule)
    (hv : values.get? "window" = some v ∨ values.get? "count" = some v ∨
      values.get? "percent" = some v ∨ values.get? "threshold_fact" = some v) :
    v ∈ rule.parts := by
  obtain ⟨window, hwindow, h⟩ := Option.bind_eq_some_iff.mp h
  obtain ⟨count, hcount, h⟩ := Option.bind_eq_some_iff.mp h
  cases h
  rcases hv with hv | hv | hv | hv
  · rw [hwindow] at hv
    cases hv
    simp
  · rw [hcount] at hv
    cases hv
    simp
  · simp [hv]
  · simp [hv]

theorem Builder.mem_parts_daysAndAmount {since days amount : Value} (op : String)
    (hv : v = days ∨ v = amount) :
    v ∈ (Value.dict [("all", .list [daysSince since op days,
      factIs "amount_minor" ">" amount])]).parts := by
  rcases hv with rfl | rfl
  · simp [daysSince]
  · simp [factIs]

theorem Builder.mem_parts_hoursAsked {start stop : Option Value} (h : start = some v ∨ stop = some v) :
    ∃ condition ∈ hoursAsked start stop, v ∈ condition.parts := by
  cases start with
  | none =>
    cases stop with
    | none => simp at h
    | some stop =>
      obtain rfl : stop = v := by simpa using h
      exact ⟨_, List.mem_singleton_self _, by simp [hourIs]⟩
  | some start =>
    cases stop with
    | none =>
      obtain rfl : start = v := by simpa using h
      exact ⟨_, List.mem_singleton_self _, by simp [hourIs]⟩
    | some stop =>
      refine ⟨_, List.mem_singleton_self _, ?_⟩
      rcases h with h | h
      · cases h
        simp [hourIs]
      · cases h
        simp [hourIs]

theorem Builder.mem_parts_corridorAsked (h : corridorAsked values = some rule)
    (hv : values.get? "list_name" = some v ∨ values.get? "max_kyc_tier" = some v ∨
      values.get? "from_hour" = some v ∨ values.get? "to_hour" = some v) : v ∈ rule.parts := by
  cases h
  have hpart : ∀ condition ∈ inList values :: (((values.get? "max_kyc_tier").toList.map fun v =>
      factIs "kyc_tier" "<" v) ++ hoursAsked (values.get? "from_hour") (values.get? "to_hour")),
      v ∈ condition.parts → v ∈ (Value.dict [("all", .list (inList values ::
        (((values.get? "max_kyc_tier").toList.map fun v => factIs "kyc_tier" "<" v) ++
          hoursAsked (values.get? "from_hour") (values.get? "to_hour"))))]).parts := by
    intro condition hcondition hmem
    rw [parts_eq, children, List.map_singleton, List.flatMap_singleton, parts_eq, children]
    exact List.mem_cons_of_mem _ (List.mem_cons_of_mem _
      (List.mem_flatMap.mpr ⟨condition, hcondition, hmem⟩))
  rcases hv with hv | hv | hv
  · refine hpart _ List.mem_cons_self ?_
    simp [inList, hv]
  · refine hpart (factIs "kyc_tier" "<" v) (by simp [hv]) ?_
    simp [factIs]
  · obtain ⟨condition, hcondition, hmem⟩ := mem_parts_hoursAsked hv
    exact hpart condition (List.mem_cons_of_mem _ (List.mem_append_right _ hcondition)) hmem

/-- What the answers ask for has every answer in it. -/
theorem Shape.mem_parts_asked (hshape : shape ∈ shapes) (h : shape.asked values = some rule)
    (hinput : input ∈ shape.inputs) (hv : values.get? input.key = some v) : v ∈ rule.parts := by
  simp only [shapes, List.mem_cons, List.not_mem_nil, or_false] at hshape
  rcases hshape with rfl | rfl | rfl | rfl | rfl | rfl
  · refine mem_parts_amountLimit h ?_
    simp only [Shape.amountLimit, List.mem_cons, List.not_mem_nil, or_false] at hinput
    rcases hinput with rfl | rfl <;> simp [hv]
  · refine mem_parts_velocityAsked h ?_
    simp only [Shape.velocityCount, List.mem_cons, List.not_mem_nil, or_false] at hinput
    rcases hinput with rfl | rfl | rfl <;> simp [hv]
  · refine mem_parts_structuring h ?_
    simp only [Shape.structuring, List.mem_cons, List.not_mem_nil, or_false] at hinput
    rcases hinput with rfl | rfl | rfl | rfl <;> simp [hv]
  · obtain ⟨days, hdays, h⟩ := Option.bind_eq_some_iff.mp (h : Builder.dormantReactivation values = _)
    obtain ⟨amount, hamount, h⟩ := Option.bind_eq_some_iff.mp h
    cases h
    refine mem_parts_daysAndAmount ">" ?_
    simp only [Shape.dormantReactivation, List.mem_cons, List.not_mem_nil, or_false] at hinput
    rcases hinput with rfl | rfl
    · exact .inl (Option.some.inj (hv.symm.trans hdays))
    · exact .inr (Option.some.inj (hv.symm.trans hamount))
  · refine mem_parts_corridorAsked h ?_
    simp only [Shape.corridor, List.mem_cons, List.not_mem_nil, or_false] at hinput
    rcases hinput with rfl | rfl | rfl | rfl <;> simp [hv]
  · obtain ⟨days, hdays, h⟩ := Option.bind_eq_some_iff.mp (h : Builder.newAccount values = _)
    obtain ⟨amount, hamount, h⟩ := Option.bind_eq_some_iff.mp h
    cases h
    refine mem_parts_daysAndAmount "<" ?_
    simp only [Shape.newAccount, List.mem_cons, List.not_mem_nil, or_false] at hinput
    rcases hinput with rfl | rfl
    · exact .inl (Option.some.inj (hv.symm.trans hdays))
    · exact .inr (Option.some.inj (hv.symm.trans hamount))

end

/-! ## A blank is another rule -/

/-- The part of a conjunction that is a call has a call for its tree. -/
theorem tree_inList (h : Structured.tree maxStructuredDepth (Builder.inList values) = some node) :
    ∃ func args keywords, node = .call func args keywords := by
  have htree : Structured.tree maxStructuredDepth (Builder.inList values) =
      (Structured.callTree (Structured.valueTree (maxStructuredDepth - 1))
        [("call", .str "in_list"), ("positional", .list [Builder.fact (.str "destination_country"),
          Builder.fact ((values.get? "list_name").getD (.str "high_risk_countries"))])]).bind some := rfl
  rw [htree] at h
  obtain ⟨call, hcall, h⟩ := Option.bind_eq_some_iff.mp h
  cases h
  obtain ⟨args, hargs, hcall⟩ := Option.bind_eq_some_iff.mp hcall
  cases hcall
  exact ⟨_, _, _, rfl⟩

/-- Two conjunctions that start with a call are of as many parts. -/
theorem length_eq_of_joined_eq {func func' : Node}
    (h : Grammar.joined .and (.call func args keywords :: nodes) =
      Grammar.joined .and (.call func' args' keywords' :: nodes')) : nodes.length = nodes'.length := by
  cases nodes with
  | nil =>
    cases nodes' with
    | nil => rfl
    | cons => cases h
  | cons n nodes =>
    cases nodes' with
    | nil => cases h
    | cons n' nodes' =>
      injection h with _ hnodes
      rw [(List.cons.inj hnodes).2]

/-- The tree of a corridor has a part for each condition. -/
theorem length_eq_of_denotation_corridor {values values' : Answered}
    {conditions conditions' : List Value}
    (h : Structured.denotation (.dict [("all", .list (Builder.inList values :: conditions))]) = some node)
    (h' : Structured.denotation (.dict [("all", .list (Builder.inList values' :: conditions'))]) =
      some node')
    (heq : node.withConstants = node'.withConstants) : conditions.length = conditions'.length := by
  obtain ⟨nodes, hnodes, rfl⟩ := denotation_all_eq_some h
  obtain ⟨nodes', hnodes', rfl⟩ := denotation_all_eq_some h'
  cases hnodes with
  | cons hfirst hrest =>
    cases hnodes' with
    | cons hfirst' hrest' =>
      obtain ⟨func, args, keywords, rfl⟩ := tree_inList hfirst
      obtain ⟨func', args', keywords', rfl⟩ := tree_inList hfirst'
      rw [Node.withConstants_joined, Node.withConstants_joined, List.map_cons, List.map_cons,
        Node.withConstants, Node.withConstants] at heq
      have hlength := length_eq_of_joined_eq heq
      rw [List.length_map, List.length_map] at hlength
      rw [hrest.length_eq, hlength, hrest'.length_eq]

theorem valueTree_fact (h : Structured.valueTree maxStructuredDepth (Builder.fact v) = some node) :
    ∃ name, v = .str name ∧ node = .name name := by
  have htree : Structured.valueTree maxStructuredDepth (Builder.fact v) =
      Structured.factTree [("fact", v)] := rfl
  rw [htree] at h
  cases v with
  | str name =>
    cases h
    exact ⟨name, rfl, rfl⟩
  | _ => cases h

/-- The tree of a structuring rule has the name of its threshold. -/
theorem threshold_eq_of_trees {window window' lower lower' threshold : Value} {name : String}
    (hname : Node.ofName name = .name name)
    (h : Structured.denotation (.dict [("call", .str "velocity_count"),
      ("args", .dict [("window", window), ("min_amount_minor", lower),
        ("max_amount_minor", Builder.fact threshold)]), ("op", .str op), ("value", v)]) = some node)
    (h' : Structured.denotation (.dict [("call", .str "velocity_count"),
      ("args", .dict [("window", window'), ("min_amount_minor", lower'),
        ("max_amount_minor", Builder.fact (.str name))]), ("op", .str op), ("value", v)]) = some node')
    (heq : node.withConstants = node'.withConstants) : threshold = .str name := by
  obtain ⟨settings, comparators, hsettings, rfl⟩ := denotation_call_eq_some h
  obtain ⟨settings', comparators', hsettings', rfl⟩ := denotation_call_eq_some h'
  injection heq with hcall _
  injection hcall with _ _ hkeywords
  obtain ⟨first, _, -, hrest, rfl⟩ := List.forall₂_cons_left_iff.mp hsettings
  obtain ⟨second, _, -, hlast, rfl⟩ := List.forall₂_cons_left_iff.mp hrest
  obtain ⟨third, _, hthird, -, rfl⟩ := List.forall₂_cons_left_iff.mp hlast
  obtain ⟨first', _, -, hrest', rfl⟩ := List.forall₂_cons_left_iff.mp hsettings'
  obtain ⟨second', _, -, hlast', rfl⟩ := List.forall₂_cons_left_iff.mp hrest'
  obtain ⟨third', _, hthird', -, rfl⟩ := List.forall₂_cons_left_iff.mp hlast'
  obtain ⟨tree, htree, rfl⟩ := Option.map_eq_some_iff.mp hthird
  obtain ⟨tree', htree', rfl⟩ := Option.map_eq_some_iff.mp hthird'
  obtain ⟨given, rfl, rfl⟩ := valueTree_fact htree
  obtain ⟨_, hdefault, rfl⟩ := valueTree_fact htree'
  cases hdefault
  simp only [Node.withConstantsKeywords, Node.withConstants, List.cons.injEq, Prod.mk.injEq, hname]
    at hkeywords
  exact congrArg Value.str (Node.eq_of_ofName_eq hkeywords.2.2.1.2)

/-! ## When the answers restrict the rule -/

section
variable {py : Python} {shape : Shape} {values : Answered} {result : BuildResult}

/-- What is built is what the constructor makes, with its text where that is valid. -/
theorem Shape.build_eq_some (h : shape.build py values = .ok result) :
    shape.construct values = some result.structured ∧
      (result.error = none → Structured.toExpression py result.structured = .ok result.expression ∧
        ∃ ast, validateSource py result.expression = .ok ast) ∧
      (result.error ≠ none → result.expression = "") := by
  unfold Shape.build at h
  split at h
  · cases h
  · rename_i structured hconstruct
    dsimp only at h
    split at h
    · rename_i expression hwritten
      cases h
      obtain ⟨text, htext, hwritten⟩ := bind_eq_ok.mp hwritten
      obtain ⟨ast, hast, hwritten⟩ := bind_eq_ok.mp hwritten
      cases hwritten
      exact ⟨hconstruct, fun _ => ⟨mapError_eq_ok.mp htext, ast, hast⟩,
        fun herror => absurd rfl herror⟩
    · cases h
      exact ⟨hconstruct, fun hnone => absurd hnone (Option.some_ne_none _), fun _ => rfl⟩
    · cases h

theorem validateSource_empty (py : Python) (ast : Node) : validateSource py "" ≠ .ok ast := by
  intro h
  cases h

variable {values' : Answered} {result' : BuildResult}

/-- Two rules are built to one text only where Python reads both as one tree. -/
theorem withConstants_eq_of_expression_eq (hbuild : shape.build py values = .ok result)
    (hvalid : result.error = none) (hreads : py.ReadsRule result.structured)
    (hbuild' : shape.build py values' = .ok result') (hreads' : py.ReadsRule result'.structured)
    (heq : result'.expression = result.expression) :
    ∃ node node', Structured.denotation result.structured = some node ∧
      Structured.denotation result'.structured = some node' ∧
      node.withConstants = node'.withConstants := by
  obtain ⟨-, hwritten, -⟩ := Shape.build_eq_some hbuild
  obtain ⟨-, hwritten', hinvalid⟩ := Shape.build_eq_some hbuild'
  obtain ⟨htext, ast, hast⟩ := hwritten hvalid
  have hvalid' : result'.error = none := by
    by_contra herror
    rw [← heq, hinvalid herror] at hast
    exact validateSource_empty py ast hast
  obtain ⟨htext', -⟩ := hwritten' hvalid'
  obtain ⟨node, hnode, rfl⟩ := hreads _ _ htext hast
  rw [heq] at htext'
  obtain ⟨node', hnode', heq⟩ := hreads' _ _ htext' hast
  exact ⟨node, node', hnode, hnode', heq⟩

/-- The rules of the answers, with all of them and with a blank for one. -/
def Python.ReadsRules (py : Python) (shape : Shape) (values : Answered) : Prop :=
  (∀ rule, shape.construct values = some rule → py.ReadsRule rule) ∧
    ∀ input ∈ shape.inputs, ∀ rule,
      shape.construct (Builder.blank values input.key) = some rule → py.ReadsRule rule

/-! ### Blanks -/

open Builder in
/-- How many conditions a corridor has after the first. -/
theorem Builder.exists_corridor_eq (values : Answered) : ∃ conditions,
    corridor values = some (.dict [("all", .list (inList values :: conditions))]) ∧
      conditions.length = (if given values "max_kyc_tier" then 1 else 0) +
        if (notNone? values "from_hour").isSome ∧ (notNone? values "to_hour").isSome then 1 else 0 := by
  refine ⟨_, rfl, ?_⟩
  rw [List.length_append]
  congr 1
  · split
    · rename_i hgiven
      cases htier : values.get? "max_kyc_tier" with
      | none =>
        rw [given, htier] at hgiven
        cases hgiven
      | some v => rfl
    · rfl
  · cases notNone? values "from_hour" with
    | none => rfl
    | some start =>
      cases notNone? values "to_hour" with
      | none => rfl
      | some stop => rfl

theorem Builder.given_blank_self (values : Answered) (key : String) :
    given (blank values key) key = false := by
  rw [given, get?_blank_self]
  rfl

theorem Builder.given_blank_of_ne (values : Answered) (h : k ≠ key) :
    given (blank values key) k = given values k := by
  rw [given, get?_blank_of_ne values h, given]

/-- With another number of conditions the text is another. -/
theorem expression_ne_of_corridor (hbuild : Shape.corridor.build py values = .ok result)
    (hvalid : result.error = none) (hreads : py.ReadsRule result.structured)
    (hbuild' : Shape.corridor.build py values' = .ok result')
    (hreads' : py.ReadsRule result'.structured)
    (hne : ((if Builder.given values' "max_kyc_tier" then 1 else 0) +
        if (Builder.notNone? values' "from_hour").isSome ∧
          (Builder.notNone? values' "to_hour").isSome then 1 else 0) ≠
      (if Builder.given values "max_kyc_tier" then 1 else 0) +
        if (Builder.notNone? values "from_hour").isSome ∧
          (Builder.notNone? values "to_hour").isSome then 1 else 0) :
    result'.expression ≠ result.expression := by
  intro heq
  obtain ⟨node, node', hnode, hnode', htrees⟩ :=
    withConstants_eq_of_expression_eq hbuild hvalid hreads hbuild' hreads' heq
  obtain ⟨conditions, hrule, hlength⟩ := Builder.exists_corridor_eq values
  obtain ⟨conditions', hrule', hlength'⟩ := Builder.exists_corridor_eq values'
  have hstructured := Option.some.inj ((Shape.build_eq_some hbuild).1.symm.trans hrule)
  have hstructured' := Option.some.inj ((Shape.build_eq_some hbuild').1.symm.trans hrule')
  rw [hstructured] at hnode
  rw [hstructured'] at hnode'
  have heq := length_eq_of_denotation_corridor hnode hnode' htrees
  rw [hlength, hlength'] at heq
  exact hne heq.symm

theorem expression_ne_of_velocityCount (hbuild : Shape.velocityCount.build py values = .ok result)
    (hvalid : result.error = none) (hreads : py.ReadsRule result.structured)
    (hbuild' : Shape.velocityCount.build py (Builder.blank values "min_amount_minor") = .ok result')
    (hreads' : py.ReadsRule result'.structured)
    (hgiven : Builder.given values "min_amount_minor" = true)
    (hv : values.get? "min_amount_minor" = some v) : result'.expression ≠ result.expression := by
  intro heq
  obtain ⟨node, node', hnode, hnode', htrees⟩ :=
    withConstants_eq_of_expression_eq hbuild hvalid hreads hbuild' hreads' heq
  have hrule : Builder.velocityCount values = _ := (Shape.build_eq_some hbuild).1
  have hrule' : Builder.velocityCount (Builder.blank values "min_amount_minor") = _ :=
    (Shape.build_eq_some hbuild').1
  obtain ⟨window, hwindow, hrule⟩ := Option.bind_eq_some_iff.mp hrule
  obtain ⟨count, hcount, hrule⟩ := Option.bind_eq_some_iff.mp hrule
  obtain ⟨window', hwindow', hrule'⟩ := Option.bind_eq_some_iff.mp hrule'
  obtain ⟨count', hcount', hrule'⟩ := Option.bind_eq_some_iff.mp hrule'
  rw [Builder.get?_blank_of_ne values (by decide), hcount] at hcount'
  cases hcount'
  rw [← Option.some.inj hrule] at hnode
  rw [← Option.some.inj hrule'] at hnode'
  have hlength := length_eq_of_denotation_call hnode hnode' htrees
  rw [hgiven, hv, Builder.given_blank_self] at hlength
  simp at hlength

theorem expression_ne_of_structuring (hbuild : Shape.structuring.build py values = .ok result)
    (hvalid : result.error = none) (hreads : py.ReadsRule result.structured)
    (hbuild' : Shape.structuring.build py (Builder.blank values "threshold_fact") = .ok result')
    (hreads' : py.ReadsRule result'.structured)
    (hne : v ≠ .str "reporting_threshold_minor")
    (hv : values.get? "threshold_fact" = some v) : result'.expression ≠ result.expression := by
  intro heq
  obtain ⟨node, node', hnode, hnode', htrees⟩ :=
    withConstants_eq_of_expression_eq hbuild hvalid hreads hbuild' hreads' heq
  have hrule : Builder.structuring values = _ := (Shape.build_eq_some hbuild).1
  have hrule' : Builder.structuring (Builder.blank values "threshold_fact") = _ :=
    (Shape.build_eq_some hbuild').1
  obtain ⟨window, hwindow, hrule⟩ := Option.bind_eq_some_iff.mp hrule
  obtain ⟨count, hcount, hrule⟩ := Option.bind_eq_some_iff.mp hrule
  obtain ⟨window', hwindow', hrule'⟩ := Option.bind_eq_some_iff.mp hrule'
  obtain ⟨count', hcount', hrule'⟩ := Option.bind_eq_some_iff.mp hrule'
  rw [Builder.get?_blank_of_ne values (by decide), hcount] at hcount'
  cases hcount'
  rw [← Option.some.inj hrule, hv] at hnode
  rw [← Option.some.inj hrule', Builder.get?_blank_self] at hnode'
  exact hne (threshold_eq_of_trees rfl hnode hnode' htrees)

/-! ### Answers that are dropped -/

namespace Builder

theorem velocityCount_blank (h : given values "min_amount_minor" = false) :
    velocityCount (blank values "min_amount_minor") = velocityCount values := by
  rw [velocityCount, velocityCount, get?_blank_of_ne values (by decide : "window" ≠ _),
    get?_blank_of_ne values (by decide : "count" ≠ _), given_blank_self, h]
  rfl

theorem structuring_blank
    (h : values.get? "threshold_fact" = some (.str "reporting_threshold_minor")) :
    structuring (blank values "threshold_fact") = structuring values := by
  rw [structuring, structuring, get?_blank_of_ne values (by decide : "window" ≠ _),
    get?_blank_of_ne values (by decide : "count" ≠ _),
    get?_blank_of_ne values (by decide : "percent" ≠ _), get?_blank_self, h]
  rfl

theorem inList_blank (values : Answered) (h : "list_name" ≠ key) :
    inList (blank values key) = inList values := by
  rw [inList, inList, get?_blank_of_ne values h]

theorem corridor_blank_tier (h : given values "max_kyc_tier" = false) :
    corridor (blank values "max_kyc_tier") = corridor values := by
  rw [corridor, corridor, inList_blank values (by decide), given_blank_self, h,
    notNone?_blank_of_ne values (by decide : "from_hour" ≠ _),
    notNone?_blank_of_ne values (by decide : "to_hour" ≠ _)]
  rfl

theorem corridor_blank_hour (hkey : key = "from_hour" ∨ key = "to_hour")
    (h : ¬ ((notNone? values "from_hour").isSome = true ∧ (notNone? values "to_hour").isSome = true)) :
    corridor (blank values key) = corridor values := by
  have hlist : "list_name" ≠ key := by
    rcases hkey with rfl | rfl <;> decide
  have htier : "max_kyc_tier" ≠ key := by
    rcases hkey with rfl | rfl <;> decide
  have hnone : ∀ k, notNone? values k = none → notNone? (blank values key) k = none := by
    intro k hk
    by_cases heq : k = key
    · rw [heq]
      exact notNone?_blank_self values key
    · rw [notNone?_blank_of_ne values heq, hk]
  rw [corridor, corridor, inList_blank values hlist, given_blank_of_ne values htier,
    get?_blank_of_ne values htier]
  cases hfrom : notNone? values "from_hour" with
  | none =>
    rw [hnone _ hfrom]
  | some start =>
    cases hto : notNone? values "to_hour" with
    | none =>
      rw [hnone _ hto]
      cases notNone? (blank values key) "from_hour" <;> rfl
    | some stop => exact absurd ⟨by rw [hfrom]; rfl, by rw [hto]; rfl⟩ h

end Builder

/-- The controls that are not required. -/
theorem optional_cases (hshape : shape ∈ shapes) (hinput : input ∈ shape.inputs)
    (hoptional : input.required = false) :
    shape = .velocityCount ∧ input.key = "min_amount_minor" ∨
      shape = .structuring ∧ input.key = "threshold_fact" ∨
      shape = .corridor ∧ (input.key = "max_kyc_tier" ∨ input.key = "from_hour" ∨
        input.key = "to_hour") := by
  simp only [shapes, List.mem_cons, List.not_mem_nil, or_false] at hshape
  rcases hshape with rfl | rfl | rfl | rfl | rfl | rfl
  · simp only [Shape.amountLimit, List.mem_cons, List.not_mem_nil, or_false] at hinput
    rcases hinput with rfl | rfl <;> cases hoptional
  · simp only [Shape.velocityCount, List.mem_cons, List.not_mem_nil, or_false] at hinput
    rcases hinput with rfl | rfl | rfl
    · cases hoptional
    · cases hoptional
    · exact .inl ⟨rfl, rfl⟩
  · simp only [Shape.structuring, List.mem_cons, List.not_mem_nil, or_false] at hinput
    rcases hinput with rfl | rfl | rfl | rfl
    · cases hoptional
    · cases hoptional
    · cases hoptional
    · exact .inr (.inl ⟨rfl, rfl⟩)
  · simp only [Shape.dormantReactivation, List.mem_cons, List.not_mem_nil, or_false] at hinput
    rcases hinput with rfl | rfl <;> cases hoptional
  · simp only [Shape.corridor, List.mem_cons, List.not_mem_nil, or_false] at hinput
    rcases hinput with rfl | rfl | rfl | rfl
    · cases hoptional
    · exact .inr (.inr ⟨rfl, .inl rfl⟩)
    · exact .inr (.inr ⟨rfl, .inr (.inl rfl)⟩)
    · exact .inr (.inr ⟨rfl, .inr (.inr rfl)⟩)
  · simp only [Shape.newAccount, List.mem_cons, List.not_mem_nil, or_false] at hinput
    rcases hinput with rfl | rfl <;> cases hoptional

theorem taken_of_restricts (hshape : shape ∈ shapes) (hbuild : shape.build py values = .ok result)
    (h : Restricts py shape values result) : shape.Taken values := by
  intro input hinput hoptional v hv
  have hne : shape.construct (Builder.blank values input.key) ≠ shape.construct values := by
    intro heq
    have hbuild' : shape.build py (Builder.blank values input.key) = .ok result := by
      rw [Shape.build, heq]
      exact hbuild
    exact h.optional input hinput hoptional v hv result hbuild' rfl
  obtain ⟨rfl, hkey⟩ | ⟨rfl, hkey⟩ | ⟨rfl, hkey⟩ := optional_cases hshape hinput hoptional
  · rw [hkey] at hv hne ⊢
    refine ⟨fun _ => ?_, fun hkey => by simp at hkey, fun hkey => by simp at hkey⟩
    by_contra hfalse
    rw [← Builder.given_eq_true_iff hv, Bool.not_eq_true] at hfalse
    exact hne (Builder.velocityCount_blank hfalse)
  · rw [hkey] at hv hne ⊢
    refine ⟨fun hkey => by simp at hkey, fun hkey => by simp at hkey, fun _ heq => ?_⟩
    rw [heq] at hv
    exact hne (Builder.structuring_blank hv)
  · rcases hkey with hkey | hkey
    · rw [hkey] at hv hne ⊢
      refine ⟨fun _ => ?_, fun hkey => by simp at hkey, fun hkey => by simp at hkey⟩
      by_contra hfalse
      rw [← Builder.given_eq_true_iff hv, Bool.not_eq_true] at hfalse
      exact hne (Builder.corridor_blank_tier hfalse)
    · refine ⟨fun hkey' => ?_, fun _ => ?_, fun hkey' => ?_⟩
      · rcases hkey with hkey | hkey <;> simp [hkey] at hkey'
      · by_contra hfalse
        exact hne (Builder.corridor_blank_hour hkey hfalse)
      · rcases hkey with hkey | hkey <;> simp [hkey] at hkey'

/-- With every optional answer taken, a blank for one of them gives another rule. -/
theorem expression_ne_of_taken (hshape : shape ∈ shapes)
    (hbuild : shape.build py values = .ok result) (hvalid : result.error = none)
    (hpy : py.ReadsRules shape values) (htaken : shape.Taken values) (hinput : input ∈ shape.inputs)
    (hoptional : input.required = false) (hv : values.get? input.key = some v)
    (hbuild' : shape.build py (Builder.blank values input.key) = .ok result') :
    result'.expression ≠ result.expression := by
  have hreads := hpy.1 _ (Shape.build_eq_some hbuild).1
  have hreads' := hpy.2 input hinput _ (Shape.build_eq_some hbuild').1
  have hanswer := htaken input hinput hoptional v hv
  obtain ⟨rfl, hkey⟩ | ⟨rfl, hkey⟩ | ⟨rfl, hkey⟩ := optional_cases hshape hinput hoptional
  · rw [hkey] at hv hbuild' hanswer
    have hgiven := (Builder.given_eq_true_iff hv).trans (hanswer.1 (.inl rfl))
    exact expression_ne_of_velocityCount hbuild hvalid hreads hbuild' hreads' hgiven hv
  · rw [hkey] at hv hbuild' hanswer
    exact expression_ne_of_structuring hbuild hvalid hreads hbuild' hreads' (hanswer.2.2 rfl) hv
  · refine expression_ne_of_corridor hbuild hvalid hreads hbuild' hreads' ?_
    rcases hkey with hkey | hkey | hkey
    · rw [hkey] at hv hanswer ⊢
      have hgiven := (Builder.given_eq_true_iff hv).trans (hanswer.1 (.inr rfl))
      rw [Builder.given_blank_self, hgiven, Builder.notNone?_blank_of_ne values (by decide),
        Builder.notNone?_blank_of_ne values (by decide)]
      simp
    · rw [hkey] at hanswer ⊢
      rw [Builder.given_blank_of_ne values (by decide), Builder.notNone?_blank_self,
        if_pos (hanswer.2.1 (.inl rfl))]
      simp
    · rw [hkey] at hanswer ⊢
      rw [Builder.given_blank_of_ne values (by decide), Builder.notNone?_blank_self,
        if_pos (hanswer.2.1 (.inr rfl))]
      simp

/-- The answers restrict the rule exactly when every optional one is taken. -/
theorem restricts_iff_taken (hshape : shape ∈ shapes) (hbuild : shape.build py values = .ok result)
    (hvalid : result.error = none) (hpy : py.ReadsRules shape values) :
    Restricts py shape values result ↔ shape.Taken values := by
  refine ⟨taken_of_restricts hshape hbuild, fun htaken => ?_⟩
  obtain ⟨hconstruct, hwritten, -⟩ := Shape.build_eq_some hbuild
  have hasked := (Shape.asked_of_taken hshape htaken).trans hconstruct
  refine ⟨fun input hinput v hv => Shape.mem_parts_asked hshape hasked hinput hv, ?_,
    fun input hinput hoptional v hv result' hbuild' =>
      expression_ne_of_taken hshape hbuild hvalid hpy htaken hinput hoptional hv hbuild'⟩
  intro ast asked hast heq c limit k hrun
  cases hasked.symm.trans heq
  obtain ⟨node, hnode, rfl⟩ := hpy.1 _ hconstruct _ _ (hwritten hvalid).1 hast
  obtain ⟨v, j, heval, hv⟩ := eval_of_run hrun
  exact holdsIn_conjuncts hnode heval hv

end

/-! ## An amount, and an amount of nothing -/

/-- What an officer answers to count the transactions above an amount. -/
def countAbove (amount : Int) : Answered :=
  .ofList [("window", .str "1h"), ("count", .int 5), ("min_amount_minor", .int amount)]

/-- `velocity_count(window='1h', min_amount_minor=100) > 5`. -/
def countAboveTree : Node :=
  .compare (.call (.name "velocity_count") [] [(some "window", .constant (.str "1h")),
    (some "min_amount_minor", .constant (.int 100))]) [(.gt, .constant (.int 5))]

def countAboveText : String := "velocity_count(window='1h', min_amount_minor=100) > 5"

/-- The runtime that reads the rule of an amount. -/
def readingAbove : Python := .reading countAboveText countAboveTree

theorem readsRules_countAbove : readingAbove.ReadsRules .velocityCount (countAbove 100) := by
  constructor
  · rintro rule hrule text ast htext hast
    cases hrule
    cases htext
    cases hast
    exact ⟨countAboveTree, rfl, rfl⟩
  · intro input hinput rule hrule text ast htext hast
    simp only [Shape.velocityCount, List.mem_cons, List.not_mem_nil, or_false] at hinput
    rcases hinput with rfl | rfl | rfl
    · cases hrule
    · cases hrule
    · cases hrule
      cases htext
      cases hast

theorem taken_countAbove : Shape.velocityCount.Taken (countAbove 100) := by
  intro input hinput hoptional v hv
  obtain ⟨-, hkey⟩ | ⟨hshape, -⟩ | ⟨hshape, -⟩ := optional_cases (by simp [shapes]) hinput hoptional
  · rw [hkey] at hv ⊢
    cases hv
    exact ⟨fun _ => rfl, fun hkey => by simp at hkey, fun hkey => by simp at hkey⟩
  · exact absurd (congrArg Shape.key hshape) (by decide)
  · exact absurd (congrArg Shape.key hshape) (by decide)

theorem restricts_countAbove : ∃ result,
    Shape.velocityCount.build readingAbove (countAbove 100) = .ok result ∧
      Restricts readingAbove .velocityCount (countAbove 100) result :=
  ⟨_, rfl, (restricts_iff_taken (by simp [shapes]) rfl rfl readsRules_countAbove).mpr
    taken_countAbove⟩

/-- The runtime that reads a text as a name. -/
def readingText (source : String) : Python := .reading source (.name "rule")

def corridorText : String := "in_list(destination_country, high_risk_countries)"

theorem build_countAbove_zero :
    Shape.velocityCount.build (readingText "velocity_count(window='1h') > 5") (countAbove 0) =
      .ok { expression := "velocity_count(window='1h') > 5",
            structured := .dict [("call", .str "velocity_count"),
              ("args", .dict [("window", .str "1h")]), ("op", .str ">"), ("value", .int 5)] } := rfl

set_option maxRecDepth 2000 in
theorem build_corridor (hone : values = .ofList [("max_kyc_tier", .int 0)] ∨
    values = .ofList [("from_hour", .int 6)]) :
    Shape.corridor.build (readingText corridorText) values =
      .ok { expression := corridorText, structured := .dict [("all", .list [Builder.inList ∅])] } := by
  rcases hone with rfl | rfl <;> rfl

/-- An amount of nothing, a tier of nothing, and one hour of two are dropped. -/
theorem answers_dropped :
    (∃ result, Shape.velocityCount.build (readingText "velocity_count(window='1h') > 5")
        (countAbove 0) = .ok result ∧ result.error = none ∧
      ¬ Restricts (readingText "velocity_count(window='1h') > 5") .velocityCount (countAbove 0)
        result) ∧
    (∃ result, Shape.corridor.build (readingText corridorText)
        (.ofList [("max_kyc_tier", .int 0)]) = .ok result ∧ result.error = none ∧
      ¬ Restricts (readingText corridorText) .corridor (.ofList [("max_kyc_tier", .int 0)])
        result) ∧
    ∃ result, Shape.corridor.build (readingText corridorText)
        (.ofList [("from_hour", .int 6)]) = .ok result ∧ result.error = none ∧
      ¬ Restricts (readingText corridorText) .corridor (.ofList [("from_hour", .int 6)]) result := by
  refine ⟨⟨_, build_countAbove_zero, rfl, fun h => ?_⟩, ⟨_, build_corridor (.inl rfl), rfl,
    fun h => ?_⟩, _, build_corridor (.inr rfl), rfl, fun h => ?_⟩
  · have htaken := taken_of_restricts (by simp [shapes]) build_countAbove_zero h
    have hzero := htaken ⟨"min_amount_minor", false⟩ (by simp [Shape.velocityCount]) rfl _ rfl
    exact absurd (hzero.1 (.inl rfl)) (by decide)
  · have htaken := taken_of_restricts (by simp [shapes]) (build_corridor (.inl rfl)) h
    have hzero := htaken ⟨"max_kyc_tier", false⟩ (by simp [Shape.corridor]) rfl _ rfl
    exact absurd (hzero.1 (.inr rfl)) (by decide)
  · have htaken := taken_of_restricts (by simp [shapes]) (build_corridor (.inr rfl)) h
    have hhour := htaken ⟨"from_hour", false⟩ (by simp [Shape.corridor]) rfl _ rfl
    exact absurd (hhour.2.1 (.inl rfl)).2 (by decide)

end ComplyLayer
