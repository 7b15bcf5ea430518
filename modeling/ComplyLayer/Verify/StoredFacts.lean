import ComplyLayer.Backtest.Replay
import ComplyLayer.Dsl.Related
import ComplyLayer.Verify.Sources

/-!
# Evaluating on stored facts

A list of the request is a list to the rules that decide, and a tuple to a backtest: what is stored
is a JSON array either way, and `_context` makes tuples of all of them. Every other fact comes back
as it was, so a rule that reads no such list answers as it did (`stored_concludes_iff`).
-/

namespace ComplyLayer

open Theory

/-! ## What comes back -/

/-- The facts as they come back: through JSON, with every list a tuple. -/
def storedFacts (facts : Dict String Value) : Dict String Value :=
  facts.map fun value => value.viaJson.listAsTuple

theorem viaJsonEntries_eq (entries : List (String × Value)) :
    Value.viaJsonEntries entries = entries.map fun e => (e.1, e.2.viaJson) := by
  induction entries with
  | nil => rfl
  | cons e entries ih => exact congrArg _ ih

/-- What `_context` makes of the facts that `_serialisable` stored. -/
theorem facts_of_stored {row : DecisionRow} {facts : Dict String Value}
    (h : row.resolvedFacts = .dict (serialisable facts)) : row.facts = storedFacts facts := by
  have hentries : Value.viaJsonEntries (serialisable facts) =
      facts.entries.map fun e => (e.1, e.2.viaJson) := by
    rw [viaJsonEntries_eq, serialisable, List.map_map]
    refine List.map_congr_left fun e _ => ?_
    obtain ⟨key, value⟩ := e
    cases value <;> simp [Value.viaJson]
  have hnodup : ((facts.entries.map fun e => (e.1, e.2.viaJson)).map Prod.fst).Nodup :=
    (facts.map Value.viaJson).nodup
  apply Dict.ext
  rw [DecisionRow.facts, h, Value.viaJson, hentries]
  dsimp only [Dict.map, storedFacts]
  rw [Dict.entries_ofList hnodup, List.map_map]
  rfl

namespace Value

/-- JSON gives back what JSON has. -/
theorem viaJson_eq_self {v : Value} (h : v.isNative = true) : v.viaJson = v := by
  induction v using Value.induction with
  | h v ih =>
    cases v with
    | list xs =>
      rw [isNative, isNativeAll_iff] at h
      have hall : ∀ ys : List Value, (∀ y ∈ ys, y ∈ xs) → viaJsonAll ys = ys := by
        intro ys
        induction ys with
        | nil => exact fun _ => rfl
        | cons y ys ihys =>
          intro hys
          obtain ⟨hy, hys⟩ := List.forall_mem_cons.mp hys
          rw [viaJsonAll, ih y hy (h y hy), ihys hys]
      rw [viaJson, hall xs fun _ hy => hy]
    | dict entries =>
      rw [isNative, isNativeEntries_iff] at h
      have hall : ∀ es : List (String × Value), (∀ e ∈ es, e ∈ entries) →
          viaJsonEntries es = es := by
        intro es
        induction es with
        | nil => exact fun _ => rfl
        | cons e es ihes =>
          intro hes
          obtain ⟨he, hes⟩ := List.forall_mem_cons.mp hes
          rw [viaJsonEntries, ih e.2 (List.mem_map_of_mem he) (h e he), ihes hes]
      rw [viaJson, hall entries fun _ he => he]
    | tuple _ => cases h
    | _ => rfl

/-- A fact comes back as it was unless it is a list. -/
theorem listAsTuple_viaJson {v : Value}
    (h : v.isNative = true ∨ ∃ xs, v = .tuple xs ∧ (Value.list xs).isNative = true) :
    v.viaJson.listAsTuple = v.listAsTuple := by
  rcases h with h | ⟨xs, rfl, h⟩
  · rw [viaJson_eq_self h]
  · have hxs : viaJsonAll xs = xs := Value.list.inj (viaJson_eq_self h)
    rw [viaJson, hxs]
    rfl

theorem listAsTuple_eq_self {v : Value} (h : ∀ xs, v ≠ .list xs) : v.listAsTuple = v := by
  cases v with
  | list xs => exact absurd rfl (h xs)
  | _ => rfl

end Value

/-! ## Concludes -/

/-- The evaluation gives a boolean or raises `RuleEvaluationError`. -/
def Concludes (outcome : Except Raised Bool) : Prop :=
  (∃ b, outcome = .ok b) ∨ ∃ e, outcome = .error (.evaluation e)

/-- Both give the same boolean, or both raise `RuleEvaluationError`. -/
def SameConclusion (live stored : Except Raised Bool) : Prop :=
  (∃ b, live = .ok b ∧ stored = .ok b) ∨
    (∃ e, live = .error (.evaluation e)) ∧ ∃ e, stored = .error (.evaluation e)

theorem sameConclusion_self_iff {outcome : Except Raised Bool} :
    SameConclusion outcome outcome ↔ Concludes outcome := by
  constructor
  · rintro (⟨b, hb, -⟩ | ⟨he, -⟩)
    · exact .inl ⟨b, hb⟩
    · exact .inr he
  · rintro (⟨b, hb⟩ | he)
    · exact .inl ⟨b, hb, hb⟩
    · exact .inr ⟨he, he⟩

/-- What an expression comes to in a context. -/
def conclusion (context : EvaluationContext) (tree : Node) : Except Raised Bool :=
  ((Interpreter.run context maxSteps tree).run 0).1

/-- The name resolves to an array the request sent. -/
def ReadsArray (transaction : Transaction) (velocity : Gathered) (lists : Dict String (List Value))
    (id : String) : Prop :=
  id ∉ lists.keys ∧ ∃ xs, (id, .list xs) ∈ sourceFacts transaction velocity

/-- `0 in id`. -/
def searches (id : String) : Node := .compare (.constant (.int 0)) [(.in, .name id)]

theorem conclusion_searches {c : EvaluationContext} {id : String} (h : c.facts.get? id = some v) :
    conclusion c (searches id) = ((Interpreter.compareOne .in (.int 0) v).run 3).1 := by
  have htick (n : Nat) (hn : n < maxSteps) : (Interpreter.tick maxSteps).run n = (.ok (), n + 1) :=
    Counted.run_tick_of_lt _ hn
  have hzero : (Interpreter.eval c maxSteps (.constant (.int 0))).run 1 = (.ok (.int 0), 2) := rfl
  have hname : (Interpreter.eval c maxSteps (.name id)).run 2 = (.ok v, 3) := by
    rw [Interpreter.eval_name, Counted.run_bind_of_ok (htick 2 (by decide)), Interpreter.readFact, h]
    rfl
  rw [conclusion, Interpreter.run, searches, Interpreter.eval, bind_assoc,
    Counted.run_bind_of_ok (htick 0 (by decide)), bind_assoc, Counted.run_bind_of_ok hzero,
    Interpreter.evalCompare, bind_assoc, Counted.run_bind_of_ok hname, bind_assoc]
  cases hcompare : (Interpreter.compareOne .in (.int 0) v).run 3 with
  | mk result k =>
    cases result with
    | error e => rw [Counted.run_bind_of_error hcompare]
    | ok b =>
      rw [Counted.run_bind_of_ok hcompare]
      cases b <;> rfl

/-! ## What the facts are -/

section
variable {py : Python} {payload : Dict String Value} {transaction : Transaction}
  {velocity : Gathered} {lists : Dict String (List Value)} {row : DecisionRow} {id : String}

/-- A fact is a value of JSON, or the tuple of a list of those. -/
theorem isNative_of_get?_buildFacts (hjson : (Value.dict payload.entries).isNative = true)
    (hparse : parseTransaction py payload = .ok transaction)
    (hlists : ∀ values ∈ lists.values, (Value.list values).isNative = true)
    (h : (buildFacts transaction velocity lists).get? id = some v) :
    v.isNative = true ∨ ∃ xs, v = .tuple xs ∧ (Value.list xs).isNative = true := by
  rw [get?_buildFacts hparse] at h
  cases hlist : lists.get? id with
  | none =>
    rw [hlist] at h
    exact .inl (isNative_sourceFacts hjson hparse velocity _ (Dict.mem_of_find_eq_some h))
  | some values =>
    rw [hlist] at h
    cases h
    exact .inr ⟨values, rfl, hlists values ((Dict.mem_values_iff lists).mpr ⟨id, hlist⟩)⟩

/-- The arrays among the facts are those of the request that no list stands over. -/
theorem readsArray_iff (hparse : parseTransaction py payload = .ok transaction) :
    ReadsArray transaction velocity lists id ↔
      ∃ xs, (buildFacts transaction velocity lists).get? id = some (.list xs) := by
  rw [ReadsArray, get?_buildFacts hparse, Dict.mem_keys_iff]
  cases lists.get? id with
  | none =>
    refine (and_iff_right fun ⟨_, h⟩ => by cases h).trans (exists_congr fun xs => ?_)
    exact ⟨fun h => Dict.find_eq_some_of_mem (nodup_sourceFacts hparse velocity) h,
      fun h => Dict.mem_of_find_eq_some h⟩
  | some values => exact iff_of_false (fun h => h.1 ⟨values, rfl⟩) fun ⟨_, h⟩ => by cases h

/-- A fact reads from the row as it was, but for an array, which is a tuple there. -/
theorem get?_facts (hjson : (Value.dict payload.entries).isNative = true)
    (hparse : parseTransaction py payload = .ok transaction)
    (hlists : ∀ values ∈ lists.values, (Value.list values).isNative = true)
    (hrow : row.resolvedFacts = .dict (serialisable (buildFacts transaction velocity lists)))
    (id : String) : row.facts.get? id =
      ((buildFacts transaction velocity lists).get? id).map Value.listAsTuple := by
  rw [facts_of_stored hrow, storedFacts, Dict.get?_map]
  cases hget : (buildFacts transaction velocity lists).get? id with
  | none => rfl
  | some v =>
    exact congrArg some (Value.listAsTuple_viaJson
      (isNative_of_get?_buildFacts hjson hparse hlists hget))

/-- The name of a fact is one an expression may search. -/
theorem validate_searches (hparse : parseTransaction py payload = .ok transaction)
    (h : (id, v) ∈ sourceFacts transaction velocity) :
    validate py (searches id) = .ok (searches id) := by
  have hnames : ∀ id ∈ factNames, RuleValidator.isAsciiIdentifier id = true := by decide
  have hid : RuleValidator.visitName py id = .ok () :=
    if_pos (hnames id ((names_sourceFacts hparse velocity).2 (List.mem_map_of_mem h)))
  have hvisit : RuleValidator.visit py (searches id) = .ok () := by
    rw [searches, RuleValidator.visit]
    refine seq_eq_ok.mpr ⟨rfl, seq_eq_ok.mpr ⟨rfl, ?_⟩⟩
    exact RuleValidator.visitComparators_eq_ok.mpr (List.forall_mem_singleton.mpr hid)
  exact bind_eq_ok.mpr ⟨(), hvisit, rfl⟩

end

/-- An expression that reads no array of the request runs on the stored facts as it did on the facts
they were stored from. -/
theorem run_stored {py : Python} {row : DecisionRow} {tree : Node}
    (hjson : (Value.dict payload.entries).isNative = true)
    (hparse : parseTransaction py payload = .ok transaction)
    (hlists : ∀ values ∈ lists.values, (Value.list values).isNative = true)
    (hrow : row.resolvedFacts = .dict (serialisable (buildFacts transaction velocity lists)))
    (functions : String → Option Function)
    (h : ∀ id, (Node.name id).In tree → ¬ ReadsArray transaction velocity lists id) :
    (Interpreter.run (contextOf row functions) maxSteps tree).run 0 =
      (Interpreter.run ⟨buildFacts transaction velocity lists, functions⟩ maxSteps tree).run 0 := by
  have hrun : Interpreter.SideBySide (fun _ => False) Eq
      (Interpreter.run ⟨buildFacts transaction velocity lists, functions⟩ maxSteps tree)
      (Interpreter.run (contextOf row functions) maxSteps tree) := by
    refine Interpreter.run_related (Interpreter.sideBySide _) maxSteps tree fun m hm => ?_
    refine Interpreter.coupled_of_facts rfl fun id hid => ?_
    subst hid
    refine Eq.trans ?_ (get?_facts hjson hparse hlists hrow id).symm
    cases hget : (buildFacts transaction velocity lists).get? id with
    | none => rfl
    | some v =>
      have hnot : ∀ xs, v ≠ .list xs := by
        rintro xs rfl
        exact h id hm ((readsArray_iff hparse).mpr ⟨xs, hget⟩)
      exact congrArg some (Value.listAsTuple_eq_self hnot).symm
  obtain ⟨_, _, hfalse, -⟩ | heq := hrun.run_eq 0
  · exact hfalse.elim
  · exact heq

/-- An expression that reads no array of the request answers on the stored facts as it did on the
facts they were stored from, or lets the same exception escape. Every validated expression answers
alike exactly when the facts have no array of the request. -/
theorem stored_concludes_iff {py : Python} {row : DecisionRow}
    (hjson : (Value.dict payload.entries).isNative = true)
    (hparse : parseTransaction py payload = .ok transaction) (velocity : Gathered)
    (lists : Dict String (List Value))
    (hlists : ∀ values ∈ lists.values, (Value.list values).isNative = true)
    (hrow : row.resolvedFacts = .dict (serialisable (buildFacts transaction velocity lists))) :
    (∀ tree functions,
      (∀ id, (Node.name id).In tree → ¬ ReadsArray transaction velocity lists id) →
        (SameConclusion (conclusion ⟨buildFacts transaction velocity lists, functions⟩ tree)
            (conclusion (contextOf row functions) tree) ↔
          Concludes (conclusion ⟨buildFacts transaction velocity lists, functions⟩ tree))) ∧
    ((∀ tree functions, validate py tree = .ok tree →
        Concludes (conclusion ⟨buildFacts transaction velocity lists, functions⟩ tree) →
          SameConclusion (conclusion ⟨buildFacts transaction velocity lists, functions⟩ tree)
            (conclusion (contextOf row functions) tree)) ↔
      ∀ id, ¬ ReadsArray transaction velocity lists id) := by
  have hsame (tree : Node) (functions : String → Option Function)
      (h : ∀ id, (Node.name id).In tree → ¬ ReadsArray transaction velocity lists id) :
      conclusion (contextOf row functions) tree =
        conclusion ⟨buildFacts transaction velocity lists, functions⟩ tree :=
    congrArg Prod.fst (run_stored hjson hparse hlists hrow functions h)
  constructor
  · intro tree functions h
    rw [hsame tree functions h, sameConclusion_self_iff]
  constructor
  · intro hall id hreads
    obtain ⟨xs, hget⟩ := (readsArray_iff hparse).mp hreads
    obtain ⟨-, _, hsource⟩ := hreads
    have hstored : row.facts.get? id = some (.tuple xs) := by
      rw [get?_facts hjson hparse hlists hrow, hget]
      rfl
    have hlive := conclusion_searches (c := ⟨_, fun _ => none⟩) hget
    have hreplayed := conclusion_searches (c := contextOf row fun _ => none) hstored
    rcases hall (searches id) (fun _ => none) (validate_searches hparse hsource)
      (.inr ⟨_, hlive⟩) with ⟨b, hb, -⟩ | ⟨-, e, he⟩
    · cases hlive.symm.trans hb
    · cases hreplayed.symm.trans he
  · intro hnone tree functions _ hconcludes
    rw [hsame tree functions fun id _ => hnone id]
    exact sameConclusion_self_iff.mpr hconcludes

/-! ## A tier that is an array -/

/-- The row of a decision on these facts, as `_serialisable` left them. -/
def rowOfFacts (facts : Dict String Value) : DecisionRow where
  id := "dec_1"
  decidedAt := 0
  tenantId := "tnt_1"
  idempotencyKey := "key_1"
  rulesetVersion := 1
  transactionRef := "tx_1"
  customerRefHash := "c_1"
  amountMinor := 5000
  currency := "NGN"
  context := ∅
  resolvedFacts := .dict (serialisable facts)
  outcome := .str "allow"
  matchedRules := .list []
  shadowMatches := .list []
  reason := .str ""
  degraded := .bool false
  erroredRules := .list []
  latencyMs := .int 0

/-- `kyc_tier == 2`. -/
def secondTier : Node := .compare (.name "kyc_tier") [(.eq, .constant (.int 2))]

theorem stored_concludes_iff_tiered :
    SameConclusion
      (conclusion ⟨buildFacts tieredTransaction (.unavailable "timeout") ∅, fun _ => none⟩ secondTier)
      (conclusion (contextOf (rowOfFacts (buildFacts tieredTransaction (.unavailable "timeout") ∅))
        fun _ => none) secondTier) := by
  have hconcludes : Concludes (conclusion
      ⟨buildFacts tieredTransaction (.unavailable "timeout") ∅, fun _ => none⟩ secondTier) :=
    .inl ⟨true, rfl⟩
  refine ((stored_concludes_iff rfl parseTransaction_tiered (.unavailable "timeout") ∅
    (fun _ h => absurd h List.not_mem_nil) rfl).1 secondTier (fun _ => none) ?_).mpr hconcludes
  have hnames : ∀ entry ∈ sourceFacts tieredTransaction (.unavailable "timeout"),
      entry.2.typeName ≠ "list" := by decide
  rintro id - ⟨-, xs, hmem⟩
  exact hnames _ hmem rfl

/-- The tier of the request is an array. -/
def arrayPayload : Dict String Value :=
  tieredPayload.set "customer" (.dict [("kyc_tier", .list [.int 0, .int 2])])

def arrayTransaction : Transaction :=
  { tieredTransaction with customer := .ofList [("kyc_tier", .list [.int 0, .int 2])] }

/-- The rule that searches the tier fails on the request, and matches on what is stored of it. -/
theorem array_concludes_apart :
    validateSource (.reading "0 in kyc_tier" (searches "kyc_tier")) "0 in kyc_tier" =
        .ok (searches "kyc_tier") ∧
      parseTransaction asciiPython arrayPayload = .ok arrayTransaction ∧
      conclusion ⟨buildFacts arrayTransaction (.unavailable "timeout") ∅, fun _ => none⟩
          (searches "kyc_tier") = .error (.evaluation (.uncomparable "int" "list")) ∧
      conclusion (contextOf (rowOfFacts (buildFacts arrayTransaction (.unavailable "timeout") ∅))
        fun _ => none) (searches "kyc_tier") = .ok true :=
  ⟨rfl, rfl, rfl, rfl⟩

end ComplyLayer
