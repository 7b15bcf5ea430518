import ComplyLayer.Dsl.Reached
import ComplyLayer.Verify.Outage

/-!
# The size of what arithmetic produces

Every operator checks its result, negation and the functions that choose keep the size of what they
are given, and `percent_of` multiplies without a check. The integers of an evaluation stay within
`MAX_RESULT_BITS` exactly as long as its percentages do (`bounded_iff_percentages_fit`).
-/

namespace ComplyLayer

open Theory Interpreter

namespace Value

theorem bitLength_le_iff {n : Int} {k : Nat} : bitLength n ≤ k ↔ n.natAbs < 2 ^ k := by
  unfold bitLength
  split
  · rename_i hzero
    subst hzero
    exact iff_of_true (Nat.zero_le k) (Nat.two_pow_pos k)
  · rename_i hne
    exact Nat.log2_lt (Int.natAbs_ne_zero.mpr hne)

theorem bitLength_le_of_natAbs_le {m n : Int} (h : m.natAbs ≤ n.natAbs) (hn : bitLength n ≤ k) :
    bitLength m ≤ k :=
  bitLength_le_iff.mpr (lt_of_le_of_lt h (bitLength_le_iff.mp hn))

theorem bitLength_le_of_lt {n : Int} (h : n.natAbs < 2 ^ 63) : bitLength n ≤ maxResultBits :=
  bitLength_le_iff.mpr (h.trans (Nat.pow_lt_pow_right (by decide) (by decide)))

end Value

/-- The moments `datetime` has: of the years 1 to 9999, at less than a day from UTC. -/
structure Datetime.Exists (d : Datetime) : Prop where
  wall : -62135596800000000 ≤ d.wall ∧ d.wall < 253402300800000000
  offset : ∀ offset, d.utcoffset = some offset → -86400000000 < offset ∧ offset < 86400000000

/-- An integer of at most `MAX_RESULT_BITS` bits, or a moment, or anything else. -/
def Value.Bounded : Value → Prop
  | .int n => bitLength n ≤ maxResultBits
  | .datetime d => d.Exists
  | _ => True

/-- What an evaluation is given: bounded facts, a provider with bounded results, and moments. -/
structure BoundedInput (py : Python) (velocity : VelocityProvider) (now : Instant)
    (facts : Dict String Value) : Prop where
  facts : ∀ name v, facts.get? name = some v → v.Bounded
  count : ∀ seconds filters n, velocity.count seconds filters = .ok n →
    Value.bitLength n ≤ maxResultBits
  total : ∀ seconds filters n, velocity.total seconds filters = .ok n →
    Value.bitLength n ≤ maxResultBits
  now : Datetime.Exists ⟨now.wall, some now.utcoffset⟩
  fromisoformat : ∀ text d, py.fromisoformat text = some d → d.Exists

/-- Every integer that a step of the evaluation produces has at most `MAX_RESULT_BITS` bits. -/
def StaysBounded (c : EvaluationContext) (limit : Nat) (tree : Node) : Prop :=
  ∀ node i n j, Reaches c limit tree 0 node i →
    (eval c limit node).run i = (.ok (.int n), j) → Value.bitLength n ≤ maxResultBits

/-- The evaluation of the tree calls `percent_of`. -/
def CallsPercentOf (c : EvaluationContext) (limit : Nat) (tree : Node) (amount percent : Int) :
    Prop :=
  ∃ args keywords i j, Reaches c limit tree 0 (.call (.name "percent_of") args keywords) i ∧
    i < limit ∧ (evalAll c limit args).run (i + 1) = (.ok [.int amount, .int percent], j)

/-! ## Functions -/

section
variable {py : Python} {velocity : VelocityProvider} {now : Instant} {facts : Dict String Value}

theorem natAbs_wholeDaysBetween {d : Datetime} (hnow : Datetime.Exists ⟨now.wall, some now.utcoffset⟩)
    (hd : d.Exists) : (wholeDaysBetween now d.assumeUtc).natAbs < 2 ^ 63 := by
  have hwall := hnow.wall
  have hoffset := hnow.offset _ rfl
  have hwall' := hd.wall
  have hoffset' : -86400000000 < d.utcoffset.getD 0 ∧ d.utcoffset.getD 0 < 86400000000 := by
    cases ho : d.utcoffset with
    | none => decide
    | some offset => exact hd.offset offset ho
  have hquotient := Int.fdiv_eq_ediv_of_nonneg (now.micros - d.assumeUtc.micros)
    (by decide : (0 : Int) ≤ 86400 * 1000000)
  rw [wholeDaysBetween, hquotient]
  simp only [Instant.micros, Datetime.assumeUtc] at *
  omega

theorem bounded_velocityFunction {method : Nat → Filters → Except Raised Int}
    (hmethod : ∀ seconds filters n, method seconds filters = .ok n →
      Value.bitLength n ≤ maxResultBits)
    (h : velocityFunction method args kwargs = .ok v) : v.Bounded := by
  unfold velocityFunction at h
  split at h
  · obtain ⟨seconds, -, h⟩ := bind_eq_ok.mp h
    obtain ⟨n, hn, h⟩ := bind_eq_ok.mp h
    cases h
    exact hmethod _ _ n hn
  · cases h

theorem bounded_daysSince (hb : BoundedInput py velocity now facts) (hargs : ∀ v ∈ args, v.Bounded)
    (hlength : args.length = 1) (h : daysSince py now args ∅ = .ok v) : v.Bounded := by
  obtain ⟨moment, rfl⟩ := List.length_eq_one_iff.mp hlength
  have hbind : bindArguments [("timestamp", none)] [moment] ∅ = some [moment] := rfl
  simp only [daysSince, hbind] at h
  cases moment with
  | str text =>
    simp only at h
    split at h
    · rename_i d hd
      cases h
      exact Value.bitLength_le_of_lt (natAbs_wholeDaysBetween hb.now (hb.fromisoformat _ _ hd))
    · cases h
  | datetime d =>
    cases h
    have hd : d.Exists := hargs _ List.mem_cons_self
    exact Value.bitLength_le_of_lt (natAbs_wholeDaysBetween hb.now hd)
  | _ => cases h

theorem wholeNumber_eq_ok (h : wholeNumber value label = .ok n) : value = .int n := by
  unfold wholeNumber at h
  split at h
  · cases h
    rfl
  · cases h

/-- Two whole numbers and the choice between them. -/
theorem bounded_chooseOf {choose : Int → Int → Int} (hchoose : ∀ m n, choose m n = m ∨ choose m n = n)
    (hargs : ∀ v ∈ args, v.Bounded) (hlength : args.length = 2)
    (h : chooseOf choose args ∅ = .ok v) : v.Bounded := by
  obtain ⟨a, b, rfl⟩ := List.length_eq_two.mp hlength
  have hbind : bindArguments [("a", none), ("b", none)] [a, b] ∅ = some [a, b] := rfl
  simp only [chooseOf, hbind] at h
  obtain ⟨m, hm, h⟩ := bind_eq_ok.mp h
  obtain ⟨n, hn, h⟩ := bind_eq_ok.mp h
  cases h
  cases wholeNumber_eq_ok hm
  cases wholeNumber_eq_ok hn
  rcases hchoose m n with heq | heq
  · rw [heq]
    exact hargs _ List.mem_cons_self
  · rw [heq]
    exact hargs _ (List.mem_cons_of_mem _ List.mem_cons_self)

theorem bounded_absValue (hargs : ∀ v ∈ args, v.Bounded) (hlength : args.length = 1)
    (h : absValue args ∅ = .ok v) : v.Bounded := by
  obtain ⟨value, rfl⟩ := List.length_eq_one_iff.mp hlength
  have hbind : bindArguments [("value", none)] [value] ∅ = some [value] := rfl
  simp only [absValue, hbind] at h
  obtain ⟨n, hn, h⟩ := bind_eq_ok.mp h
  cases h
  cases wholeNumber_eq_ok hn
  have hle : Value.bitLength n ≤ maxResultBits := hargs _ List.mem_cons_self
  exact Value.bitLength_le_of_natAbs_le (by omega : (n.natAbs : Int).natAbs ≤ n.natAbs) hle

theorem bounded_hourOfDay (h : hourOfDay now args kwargs = .ok v) : v.Bounded := by
  unfold hourOfDay at h
  split at h
  · cases h
    refine Value.bitLength_le_of_lt ?_
    have hhour := Int.fmod_eq_emod_of_nonneg (now.wall.fdiv (3600 * 1000000)) (by decide : (0 : Int) ≤ 24)
    rw [hhour]
    omega
  · cases h

theorem bounded_inList (h : inList args kwargs = .ok v) : v.Bounded := by
  unfold inList at h
  split at h
  · split at h
    · split at h
      · cases h
        trivial
      · cases h
    · cases h
  · cases h

/-- `percent_of`, of what it is given. -/
theorem percentOf_pair (a b : Value) : percentOf [a, b] ∅ = (do
    let m ← wholeNumber a "amount"
    let n ← wholeNumber b "percent"
    pure (.int ((m * n).fdiv 100))) := rfl

theorem percentOf_eq_ok (hlength : args.length = 2) (h : percentOf args ∅ = .ok v) :
    ∃ amount percent, args = [.int amount, .int percent] ∧
      v = .int ((amount * percent).fdiv 100) := by
  obtain ⟨a, b, rfl⟩ := List.length_eq_two.mp hlength
  rw [percentOf_pair] at h
  obtain ⟨m, hm, h⟩ := bind_eq_ok.mp h
  obtain ⟨n, hn, h⟩ := bind_eq_ok.mp h
  cases h
  cases wholeNumber_eq_ok hm
  cases wholeNumber_eq_ok hn
  exact ⟨m, n, rfl, rfl⟩

/-- Every function but `percent_of` gives a bounded result. -/
theorem bounded_build (hb : BoundedInput py velocity now facts) (hfits : CallFits spec args kwargs)
    (hname : spec.name ≠ "percent_of") (hargs : ∀ v ∈ args, v.Bounded)
    (hfunction : build py velocity now spec.name = some function)
    (h : function args kwargs = .ok v) : v.Bounded := by
  have hlength := hfits.arity
  have hspec := hfits.declared
  simp only [specs, List.mem_cons, List.not_mem_nil, or_false] at hspec
  rcases hspec with rfl | rfl | rfl | rfl | rfl | rfl | rfl | rfl | rfl <;> cases hfunction
  · exact bounded_velocityFunction hb.count h
  · exact bounded_velocityFunction hb.total h
  · cases hfits.kwargs_empty rfl
    exact bounded_daysSince hb hargs hlength h
  · exact bounded_inList h
  · exact bounded_hourOfDay h
  · cases hfits.kwargs_empty rfl
    exact bounded_absValue hargs hlength h
  · cases hfits.kwargs_empty rfl
    exact bounded_chooseOf (fun m n => by omega) hargs hlength h
  · cases hfits.kwargs_empty rfl
    exact bounded_chooseOf (fun m n => by omega) hargs hlength h
  · exact absurd rfl hname

/-! ## Evaluations -/

variable {limit : Nat} {tree : Node}

/-- Digits that the validator lets through. -/
theorem bounded_constant {py : Python} (h : RuleValidator.visit py (.constant value) = .ok ()) :
    value.Bounded := by
  rw [RuleValidator.visit] at h
  cases value with
  | int n =>
    simp only [RuleValidator.visitConstant] at h
    split at h
    · cases h
    · rename_i hdigits
      have hlt := (Nat.length_repr_le_iff (by decide)).mp (Nat.not_lt.mp hdigits)
      have hpow : 10 ^ maxNumberDigits ≤ 2 ^ maxResultBits := calc
        10 ^ maxNumberDigits ≤ (2 ^ 4) ^ maxNumberDigits := Nat.pow_le_pow_left (by decide) _
        _ = 2 ^ (4 * maxNumberDigits) := (pow_mul 2 4 _).symm
        _ ≤ 2 ^ maxResultBits := Nat.pow_le_pow_right (by decide) (by decide)
      exact Value.bitLength_le_iff.mpr (hlt.trans_le hpow)
  | datetime d => cases h
  | _ => trivial

theorem bounded_binop (h : (binop op l r).run i = (.ok v, j)) : v.Bounded := by
  unfold binop at h
  split at h
  · obtain ⟨n, k, -, h⟩ := Counted.run_bind_eq_ok.mp h
    unfold guardMagnitude at h
    split at h
    · cases h
    · rename_i hfits
      cases h
      exact Nat.not_lt.mp hfits
  · cases h
  · cases h

theorem bounded_unaryop (hvalue : value.Bounded) (h : (unaryop op value).run i = (.ok v, j)) :
    v.Bounded := by
  unfold unaryop at h
  split at h
  · cases h
    trivial
  · split at h
    · rename_i n
      cases h
      exact Value.bitLength_le_of_natAbs_le (Int.natAbs_neg n).le hvalue
    · cases h

theorem bounded_evalAnd {c : EvaluationContext} (h : (evalAnd c limit nodes).run i = (.ok v, j)) :
    v.Bounded := by
  induction nodes generalizing i with
  | nil =>
    cases h
    trivial
  | cons node nodes ih =>
    rw [evalAnd] at h
    obtain ⟨value, k, -, h⟩ := Counted.run_bind_eq_ok.mp h
    split at h
    · exact ih h
    · cases h
      trivial

theorem bounded_evalOr {c : EvaluationContext} (h : (evalOr c limit nodes).run i = (.ok v, j)) :
    v.Bounded := by
  induction nodes generalizing i with
  | nil =>
    cases h
    trivial
  | cons node nodes ih =>
    rw [evalOr] at h
    obtain ⟨value, k, -, h⟩ := Counted.run_bind_eq_ok.mp h
    split at h
    · cases h
      trivial
    · exact ih h

theorem bounded_evalCompare {c : EvaluationContext}
    (h : (evalCompare c limit left comparators).run i = (.ok v, j)) : v.Bounded := by
  induction comparators generalizing left i with
  | nil =>
    cases h
    trivial
  | cons comparator comparators ih =>
    rw [evalCompare] at h
    obtain ⟨right, k, -, h⟩ := Counted.run_bind_eq_ok.mp h
    obtain ⟨result, k', -, h⟩ := Counted.run_bind_eq_ok.mp h
    cases result with
    | true => exact ih h
    | false =>
      cases h
      trivial

theorem tick_eq_ok (h : (tick limit).run i = (.ok u, k)) : i < limit ∧ k = i + 1 := by
  have hi : i < limit := by
    refine Nat.lt_of_not_le fun hle => ?_
    rw [tick, Counted.run_tick_of_le _ hle] at h
    cases h
  rw [run_tick hi] at h
  cases h
  exact ⟨hi, rfl⟩

theorem callee_eq_ok {c : EvaluationContext} {id : String}
    (h : (callee c (.name id)).run i = (.ok function, k)) :
    c.functions id = some function ∧ k = i := by
  rw [callee] at h
  cases hfunction : c.functions id with
  | none =>
    rw [hfunction] at h
    cases h
  | some f =>
    rw [hfunction] at h
    cases h
    exact ⟨rfl, rfl⟩

theorem spec_percentOf : ∀ spec ∈ specs, spec.name = "percent_of" →
    spec.positional = 2 ∧ spec.keywords = [] := by
  decide

/-- A validated call that returns has evaluated its arguments, and its function took them. -/
theorem eval_call_eq_ok {c : EvaluationContext}
    (hvisit : RuleValidator.visit py (.call func args keywords) = .ok ())
    (h : (eval c limit (.call func args keywords)).run i = (.ok v, j)) :
    ∃ spec function values kwargs k, func = .name spec.name ∧ i < limit ∧
      c.functions spec.name = some function ∧ CallFits spec values (Dict.ofList kwargs) ∧
      (callee c func).run (i + 1) = (.ok function, i + 1) ∧
      (evalAll c limit args).run (i + 1) = (.ok values, k) ∧
      function values (Dict.ofList kwargs) = .ok v := by
  obtain ⟨spec, hspec, rfl, harity, hnames, -⟩ := RuleValidator.visit_call_ok hvisit
  rw [eval] at h
  obtain ⟨_, k, htick, h⟩ := Counted.run_bind_eq_ok.mp h
  obtain ⟨hi, rfl⟩ := tick_eq_ok htick
  obtain ⟨function, k, hcallee, h⟩ := Counted.run_bind_eq_ok.mp h
  obtain ⟨hfunction, rfl⟩ := callee_eq_ok hcallee
  obtain ⟨values, k', hvalues, h⟩ := Counted.run_bind_eq_ok.mp h
  obtain ⟨kwargs, k'', hkwargs, h⟩ := Counted.run_bind_eq_ok.mp h
  refine ⟨spec, function, values, kwargs, k', rfl, hi, hfunction, ⟨hspec, ?_, ?_⟩, hcallee, hvalues,
    congrArg Prod.fst h⟩
  · rw [evalAll_length hvalues, harity]
  · exact keys_subset hnames hkwargs

/-- What an evaluation comes to gives a bounded value, where its percentages do. -/
theorem bounded_eval (hb : BoundedInput py velocity now facts)
    (hvisit : RuleValidator.visit py tree = .ok ())
    (hpercent : ∀ amount percent,
      CallsPercentOf ⟨facts, build py velocity now⟩ limit tree amount percent →
      Value.bitLength ((amount * percent).fdiv 100) ≤ maxResultBits)
    (hreaches : Reaches ⟨facts, build py velocity now⟩ limit tree 0 node i)
    (h : (eval ⟨facts, build py velocity now⟩ limit node).run i = (.ok v, j)) : v.Bounded := by
  induction node using Node.induction generalizing i v j with | h node ih => ?_
  have hnode := hreaches.isIn.visit hvisit
  have hoperand : ∀ {m k}, Next ⟨facts, build py velocity now⟩ limit node i m k →
      ∀ {w k'}, (eval ⟨facts, build py velocity now⟩ limit m).run k = (.ok w, k') → w.Bounded :=
    fun hnext _ _ hm =>
      ih _ (Node.mem_children_of_mem_operands hnext.operand)
        (hreaches.trans (.next hnext .refl)) hm
  cases node with
  | call func args keywords =>
    obtain ⟨spec, function, values, kwargs, k, rfl, hi, hfunction, hfits, hcallee, hvalues, hv⟩ :=
      eval_call_eq_ok hnode h
    by_cases hname : spec.name = "percent_of"
    · rw [hname] at hfunction hreaches
      cases hfunction
      obtain ⟨hpositional, hkeywords⟩ := spec_percentOf spec hfits.declared hname
      rw [hfits.kwargs_empty hkeywords] at hv
      obtain ⟨amount, percent, rfl, rfl⟩ := percentOf_eq_ok (hfits.arity.trans hpositional) hv
      exact hpercent amount percent ⟨args, keywords, i, k, hreaches, hi, hvalues⟩
    · refine bounded_build hb hfits hname (fun w hw => ?_) hfunction hv
      obtain ⟨before, m, after, vs, k₁, k₂, rfl, hbefore, hm⟩ := evalAll_mem hvalues hw
      exact hoperand (.arg hi hcallee hbefore) hm
  | constant value =>
    rw [eval] at h
    obtain ⟨_, k, -, h⟩ := Counted.run_bind_eq_ok.mp h
    cases h
    exact bounded_constant hnode
  | name id =>
    rw [eval_name, readFact] at h
    obtain ⟨_, k, -, h⟩ := Counted.run_bind_eq_ok.mp h
    cases hfact : facts.get? id with
    | none =>
      rw [hfact] at h
      cases h
    | some value =>
      rw [hfact] at h
      cases h
      exact hb.facts id _ hfact
  | unaryOp op operand =>
    rw [eval] at h
    obtain ⟨_, k, htick, h⟩ := Counted.run_bind_eq_ok.mp h
    obtain ⟨hi, rfl⟩ := tick_eq_ok htick
    obtain ⟨value, k', hvalue, h⟩ := Counted.run_bind_eq_ok.mp h
    exact bounded_unaryop (hoperand (.unaryOp hi) hvalue) h
  | binOp left op right =>
    rw [eval] at h
    obtain ⟨_, k, -, h⟩ := Counted.run_bind_eq_ok.mp h
    obtain ⟨l, k', -, h⟩ := Counted.run_bind_eq_ok.mp h
    obtain ⟨r, k'', -, h⟩ := Counted.run_bind_eq_ok.mp h
    exact bounded_binop h
  | boolOp op values =>
    cases op with
    | and =>
      rw [eval] at h
      obtain ⟨_, k, -, h⟩ := Counted.run_bind_eq_ok.mp h
      exact bounded_evalAnd h
    | or =>
      rw [eval] at h
      obtain ⟨_, k, -, h⟩ := Counted.run_bind_eq_ok.mp h
      exact bounded_evalOr h
  | compare left comparators =>
    rw [eval] at h
    obtain ⟨_, k, -, h⟩ := Counted.run_bind_eq_ok.mp h
    obtain ⟨l, k', -, h⟩ := Counted.run_bind_eq_ok.mp h
    exact bounded_evalCompare h
  | list elts | tuple elts =>
    rw [eval] at h
    obtain ⟨_, k, -, h⟩ := Counted.run_bind_eq_ok.mp h
    obtain ⟨values, k', -, h⟩ := Counted.run_bind_eq_ok.mp h
    cases h
    trivial
  | attributeOf value attr | subscript value slice | other kind auxiliary children =>
    rw [eval] at h
    obtain ⟨_, k, -, h⟩ := Counted.run_bind_eq_ok.mp h
    cases h

/-- A call of `percent_of` gives the percentage, whatever its size. -/
theorem CallsPercentOf.produces (hvisit : RuleValidator.visit py tree = .ok ())
    (h : CallsPercentOf ⟨facts, build py velocity now⟩ limit tree amount percent) :
    ∃ node i j, Reaches ⟨facts, build py velocity now⟩ limit tree 0 node i ∧
      (eval ⟨facts, build py velocity now⟩ limit node).run i =
        (.ok (.int ((amount * percent).fdiv 100)), j) := by
  obtain ⟨args, keywords, i, j, hreaches, hi, hargs⟩ := h
  obtain ⟨spec, hspec, hfunc, -, hnames, -⟩ :=
    RuleValidator.visit_call_ok (hreaches.isIn.visit hvisit)
  have hname : spec.name = "percent_of" := (Node.name.inj hfunc).symm
  rw [(spec_percentOf spec hspec hname).2] at hnames
  have hkeywords : keywords = [] := by
    refine List.eq_nil_iff_forall_not_mem.mpr fun p hp => ?_
    obtain ⟨arg, harg, -⟩ := hnames p hp
    cases harg
  subst hkeywords
  have hcallee : (callee ⟨facts, build py velocity now⟩ (.name "percent_of")).run (i + 1) =
      (.ok percentOf, i + 1) := rfl
  refine ⟨_, i, j, hreaches, ?_⟩
  rw [eval, Counted.run_bind_of_ok (run_tick hi), Counted.run_bind_of_ok hcallee,
    Counted.run_bind_of_ok hargs, evalKeywords]
  rfl

/-- The integers of an evaluation stay bounded exactly when the percentages do that its calls of
`percent_of` ask for. -/
theorem bounded_iff_percentages_fit (h : validateSource py source = .ok tree)
    (hb : BoundedInput py velocity now facts) (limit : Nat) :
    StaysBounded ⟨facts, build py velocity now⟩ limit tree ↔
    ∀ amount percent, CallsPercentOf ⟨facts, build py velocity now⟩ limit tree amount percent →
      Value.bitLength ((amount * percent).fdiv 100) ≤ maxResultBits := by
  have hvisit := (validateSource_eq_ok h).1
  constructor
  · intro hbounded amount percent hcall
    obtain ⟨node, i, j, hreaches, heval⟩ := hcall.produces hvisit
    exact hbounded node i _ j hreaches heval
  · intro hpercent node i n j hreaches heval
    exact bounded_eval hb hvisit hpercent hreaches heval

end

/-! ## A percentage of an amount -/

/-- `percent_of(amount_minor, percent) > 0`. -/
def percentRule (percent : Nat) : Node :=
  .compare (.call (.name "percent_of") [.name "amount_minor", .constant (.int percent)] [])
    [(.gt, .constant (.int 0))]

/-- A runtime that reads the rule text. -/
def readingPercent (source : String) (percent : Nat) : Python :=
  .reading source (percentRule percent)

def noVelocity : VelocityProvider where
  count _ _ := .ok 0
  total _ _ := .ok 0

/-- A transaction of an amount. -/
def amountFacts (amount : Int) : Dict String Value := .ofList [("amount_minor", .int amount)]

theorem boundedInput_amountFacts (source : String) (percent : Nat) {amount : Int}
    (h : Value.bitLength amount ≤ maxResultBits) :
    BoundedInput (readingPercent source percent) noVelocity ⟨0, 0⟩ (amountFacts amount) where
  facts name v hv := by
    have hmem : (name, v) ∈ (amountFacts amount).entries := (Dict.get?_eq_some_iff _).mp hv
    cases List.mem_singleton.mp hmem
    exact h
  count _ _ _ hn := by
    cases hn
    exact Nat.zero_le _
  total _ _ _ hn := by
    cases hn
    exact Nat.zero_le _
  now := ⟨by decide, by rintro _ ⟨⟩; decide⟩
  fromisoformat text d hd := by
    unfold readingPercent Python.reading at hd
    simp only at hd
    split at hd
    · cases hd
      exact ⟨by decide, by rintro _ ⟨⟩; decide⟩
    · cases hd

/-- There is one call in the rule, of the amount and the percentage. -/
theorem callsPercentOf_percentRule {c : EvaluationContext} {limit percent : Nat}
    (hfact : c.facts.get? "amount_minor" = some (.int amount))
    (h : CallsPercentOf c limit (percentRule percent) m n) : m = amount ∧ n = percent := by
  obtain ⟨args, keywords, i, j, hreaches, -, hargs⟩ := h
  have hcall : args = [.name "amount_minor", .constant (.int percent)] := by
    cases hreaches.isIn with
    | operand hc h =>
      rcases List.mem_cons.mp hc with rfl | hc
      · cases h with
        | refl => rfl
        | operand hc h =>
          rcases List.mem_cons.mp hc with rfl | hc
          · cases h with
            | operand hc _ => cases hc
          · cases List.mem_singleton.mp hc
            cases h with
            | operand hc _ => cases hc
      · cases List.mem_singleton.mp hc
        cases h with
        | operand hc _ => cases hc
  subst hcall
  rw [evalAll, eval_name, readFact, hfact] at hargs
  obtain ⟨v, k, hv, hargs⟩ := Counted.run_bind_eq_ok.mp hargs
  obtain ⟨_, _, -, hv⟩ := Counted.run_bind_eq_ok.mp hv
  cases hv
  obtain ⟨vs, k, hvs, hargs⟩ := Counted.run_bind_eq_ok.mp hargs
  cases hargs
  rw [evalAll, eval] at hvs
  obtain ⟨w, k, hw, hvs⟩ := Counted.run_bind_eq_ok.mp hvs
  obtain ⟨_, _, -, hw⟩ := Counted.run_bind_eq_ok.mp hw
  cases hw
  cases hvs
  exact ⟨rfl, rfl⟩

/-- What the rule sees of a transaction. -/
def percentContext (source : String) (percent : Nat) (amount : Int) : EvaluationContext :=
  ⟨amountFacts amount, build (readingPercent source percent) noVelocity ⟨0, 0⟩⟩

theorem bounded_ninety_percent :
    StaysBounded (percentContext "percent_of(amount_minor, 90) > 0" 90 5000) maxSteps
      (percentRule 90) := by
  have hvalid : validateSource (readingPercent "percent_of(amount_minor, 90) > 0" 90)
      "percent_of(amount_minor, 90) > 0" = .ok (percentRule 90) := rfl
  have hfits : Value.bitLength 5000 ≤ maxResultBits := by decide
  have hinput := boundedInput_amountFacts "percent_of(amount_minor, 90) > 0" 90 hfits
  refine (bounded_iff_percentages_fit hvalid hinput maxSteps).mpr fun amount percent hcall => ?_
  obtain ⟨rfl, rfl⟩ := callsPercentOf_percentRule rfl hcall
  decide

theorem calls_percentRule (source : String) (percent : Nat) (amount : Int) :
    CallsPercentOf (percentContext source percent amount) maxSteps (percentRule percent) amount
      percent := by
  have hfact : (percentContext source percent amount).facts.get? "amount_minor" =
      some (.int amount) := rfl
  have hamount : (eval (percentContext source percent amount) maxSteps (.name "amount_minor")).run 2 =
      (.ok (.int amount), 3) := by
    rw [eval_name, readFact, hfact]
    rfl
  have hpercent : (evalAll (percentContext source percent amount) maxSteps
      [.constant (.int percent)]).run 3 = (.ok [.int percent], 4) := by
    rw [evalAll, eval]
    rfl
  refine ⟨_, [], 1, 4, .next (.compared (by decide)) .refl, by decide, ?_⟩
  rw [evalAll, Counted.run_bind_of_ok hamount, Counted.run_bind_of_ok hpercent]
  rfl

/-- A thousand percent of an amount of 512 bits has more. -/
theorem thousand_percent_unbounded :
    ∃ amount, BoundedInput (readingPercent "percent_of(amount_minor, 1000) > 0" 1000) noVelocity
        ⟨0, 0⟩ (amountFacts amount) ∧
      validateSource (readingPercent "percent_of(amount_minor, 1000) > 0" 1000)
        "percent_of(amount_minor, 1000) > 0" = .ok (percentRule 1000) ∧
      ¬ StaysBounded (percentContext "percent_of(amount_minor, 1000) > 0" 1000 amount) maxSteps
        (percentRule 1000) := by
  have hvalid : validateSource (readingPercent "percent_of(amount_minor, 1000) > 0" 1000)
      "percent_of(amount_minor, 1000) > 0" = .ok (percentRule 1000) := rfl
  obtain ⟨bits, hbits⟩ : ∃ bits, maxResultBits = bits + 1 := ⟨511, rfl⟩
  obtain ⟨amount, hamount⟩ : ∃ amount : Int, amount.natAbs = 2 ^ bits :=
    ⟨(2 ^ bits : Nat), Int.natAbs_natCast _⟩
  have hfits : Value.bitLength amount ≤ maxResultBits := by
    rw [Value.bitLength_le_iff, hamount, hbits]
    exact Nat.pow_lt_pow_right (by decide) (Nat.lt_succ_self bits)
  refine ⟨amount, boundedInput_amountFacts _ _ hfits, hvalid, fun h => ?_⟩
  obtain ⟨node, i, j, hreaches, heval⟩ :=
    (calls_percentRule "percent_of(amount_minor, 1000) > 0" 1000 amount).produces
      (validateSource_eq_ok hvalid).1
  have hlt := Value.bitLength_le_iff.mp (h node i _ j hreaches heval)
  have hvalue : (amount * (1000 : Nat)).fdiv 100 = amount * 10 := by
    rw [Int.fdiv_eq_ediv_of_nonneg _ (by decide)]
    omega
  have hdouble : 2 ^ maxResultBits = 2 * amount.natAbs := by
    rw [hbits, hamount]
    exact pow_succ' 2 bits
  have hpos : 0 < amount.natAbs := by
    rw [hamount]
    exact Nat.two_pow_pos bits
  rw [hvalue, hdouble] at hlt
  omega

end ComplyLayer
