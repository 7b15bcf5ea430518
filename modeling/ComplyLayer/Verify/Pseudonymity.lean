import ComplyLayer.Api.Store

/-!
# What a decision stores about its customer

Two transactions that differ in the customer reference alone, whose keyed hashes agree, lead to the
same decision and the same response. The rows they persist agree in every column but one: `context`
is the input as received, so it holds the reference itself.
-/

namespace ComplyLayer

open Theory

/-- The same transaction of another customer. -/
def Transaction.withRef (t : Transaction) (ref : String) : Transaction :=
  { t with customerRef := ref }

def SaveArguments.withRef (args : SaveArguments) (ref : String) : SaveArguments :=
  { args with transaction := args.transaction.withRef ref }

theorem Transaction.asContext_customerRef (t : Transaction) :
    t.asContext.get? "customer_ref" = some (.str t.customerRef) := rfl

/-- Everything a request's rows depend on beside its transaction. -/
structure DecisionSetting where
  py : Python
  hash : HashCustomerRef
  handler : DecisionHandler
  store : StoreView
  /-- The window fetched under a customer's hash, for a reference, amount, type and instant. -/
  recordAndGather : String → String → Int → String → Instant → Gathered
  now : Instant
  decisionId : String
  idempotencyKey : String
  latencyMs : Int
  /-- The database takes the row or refuses it. -/
  accepts : DecisionRow → Bool

namespace DecisionSetting

variable (s : DecisionSetting) {t : Transaction} {ref : String}

/-- The body the request makes for a customer's hash, with its latency. -/
def bodyFor (hashed : String) (t : Transaction) : Except Raised (Dict String Value) := do
  let velocity := s.recordAndGather hashed t.transactionRef t.amountMinor t.transactionType s.now
  let body ← s.handler.decide s.py s.store t velocity s.now s.decisionId
  pure (body.set "latency_ms" (.int s.latencyMs))

/-- The rows the request persists, if it persists any. -/
def persisted (t : Transaction) : Option (DecisionRow × IdempotencyRecord) :=
  match s.bodyFor (s.hash t.customerRef s.handler.salt) t with
  | .error _ => none
  | .ok body =>
    (DatabaseStore.rowsOf s.py (s.handler.recordArguments s.hash body t s.idempotencyKey)).filter
      fun rows => s.accepts rows.1

theorem persisted_eq_some_iff : s.persisted t = some rows ↔
    ∃ body, s.bodyFor (s.hash t.customerRef s.handler.salt) t = .ok body ∧
      DatabaseStore.rowsOf s.py (s.handler.recordArguments s.hash body t s.idempotencyKey) =
        some rows ∧ s.accepts rows.1 := by
  unfold persisted
  cases s.bodyFor (s.hash t.customerRef s.handler.salt) t with
  | error e => simp
  | ok body => simp [Option.filter_eq_some_iff]

/-- The body does not depend on the reference. -/
theorem bodyFor_withRef (hashed : String) (t : Transaction) (ref : String) :
    s.bodyFor hashed (t.withRef ref) = s.bodyFor hashed t := rfl

theorem recordArguments_withRef
    (hhash : s.hash t.customerRef s.handler.salt = s.hash ref s.handler.salt)
    (body : Dict String Value) :
    s.handler.recordArguments s.hash body (t.withRef ref) s.idempotencyKey =
      (s.handler.recordArguments s.hash body t s.idempotencyKey).withRef ref := by
  have hfetch : s.hash (t.withRef ref).customerRef s.handler.salt =
      s.hash t.customerRef s.handler.salt := hhash.symm
  simp only [DecisionHandler.recordArguments, SaveArguments.withRef, hfetch]

end DecisionSetting

/-- Of the rows, the reference changes the context of the decision alone. -/
theorem DatabaseStore.rowsOf_withRef (py : Python) (args : SaveArguments) (ref : String) :
    rowsOf py (args.withRef ref) = (rowsOf py args).map fun rows =>
      ({ rows.1 with context := rows.1.context.set "customer_ref" (.str ref) }, rows.2) := by
  unfold rowsOf SaveArguments.withRef
  simp only
  split
  · cases py.fromisoformat _ <;> cases args.body.get? "outcome" <;>
      cases args.body.get? "matched_rules" <;> cases args.body.get? "reason" <;>
      cases args.body.get? "degraded" <;> rfl
  · rfl

/-- The context of a stored decision is the transaction as received. -/
theorem DatabaseStore.rowsOf_context {py : Python} (h : rowsOf py args = some rows) :
    rows.1.context = args.transaction.asContext := by
  unfold rowsOf at h
  split at h
  · simp only [bind, Option.bind_eq_some_iff, pure, Option.some.injEq] at h
    obtain ⟨moment, -, outcome, -, matched, -, reason, -, degraded, -, rfl⟩ := h
    rfl
  · cases h

namespace DecisionSetting

variable (s : DecisionSetting) {t : Transaction} {ref : String}

theorem persisted_context (h : s.persisted t = some rows) : rows.1.context = t.asContext := by
  obtain ⟨body, -, hrows, -⟩ := s.persisted_eq_some_iff.mp h
  exact DatabaseStore.rowsOf_context hrows

theorem persisted_withRef
    (hhash : s.hash t.customerRef s.handler.salt = s.hash ref s.handler.salt)
    (h : s.persisted t = some rows) (h' : s.persisted (t.withRef ref) = some rows') :
    rows' = ({ rows.1 with context := rows.1.context.set "customer_ref" (.str ref) }, rows.2) := by
  obtain ⟨body, hbody, hrows, -⟩ := s.persisted_eq_some_iff.mp h
  obtain ⟨body', hbody', hrows', -⟩ := s.persisted_eq_some_iff.mp h'
  have hsame : body' = body := by
    have hfetch : s.hash (t.withRef ref).customerRef s.handler.salt =
        s.hash t.customerRef s.handler.salt := hhash.symm
    rw [hfetch, bodyFor_withRef, hbody] at hbody'
    exact (Except.ok.inj hbody').symm
  subst hsame
  rw [s.recordArguments_withRef hhash, DatabaseStore.rowsOf_withRef, hrows] at hrows'
  exact (Option.some.inj hrows').symm

/-- **The reference is stored.** For two transactions that differ in the customer reference alone
and have equal hashes, the persisted rows are equal only where nothing is persisted. Where both
persist, the rows differ in the context's `customer_ref` and in nothing else. -/
theorem persisted_eq_iff (t : Transaction) (ref : String) (hne : t.customerRef ≠ ref)
    (hhash : s.hash t.customerRef s.handler.salt = s.hash ref s.handler.salt) :
    (s.persisted t = s.persisted (t.withRef ref) ↔
      s.persisted t = none ∧ s.persisted (t.withRef ref) = none) ∧
    ∀ rows rows', s.persisted t = some rows → s.persisted (t.withRef ref) = some rows' →
      rows.1.context.get? "customer_ref" = some (.str t.customerRef) ∧
        rows'.1.context.get? "customer_ref" = some (.str ref) ∧
        (∀ field, field ≠ "customer_ref" →
          rows'.1.context.get? field = rows.1.context.get? field) ∧
        { rows'.1 with context := rows.1.context } = rows.1 ∧ rows'.2 = rows.2 := by
  constructor
  · constructor
    · intro heq
      cases hp : s.persisted t with
      | none => exact ⟨rfl, heq ▸ hp⟩
      | some rows =>
        have hcontext := s.persisted_context hp
        have hcontext' := s.persisted_context (heq ▸ hp : s.persisted (t.withRef ref) = some rows)
        have href : some (Value.str t.customerRef) = some (.str (t.withRef ref).customerRef) := by
          rw [← t.asContext_customerRef, ← (t.withRef ref).asContext_customerRef, ← hcontext,
            ← hcontext']
        exact absurd (Value.str.inj (Option.some.inj href)) hne
    · rintro ⟨h₁, h₂⟩
      rw [h₁, h₂]
  · intro rows rows' hrows hrows'
    have hcontext := s.persisted_context hrows
    cases s.persisted_withRef hhash hrows hrows'
    refine ⟨by rw [hcontext, t.asContext_customerRef], Dict.get?_set_self .., ?_, rfl, rfl⟩
    intro field hfield
    exact Dict.get?_set_of_ne hfield ..

end DecisionSetting

/-! Two customers under one hash. -/

def plainTransaction : Transaction where
  transactionRef := "TXN-1"
  customerRef := "usr_1"
  amountMinor := 100
  currency := "NGN"

/-- A hash that gives every customer the same digest, and a database that takes every row. -/
def plainSetting : DecisionSetting where
  py := .reading "" (.name "amount_minor")
  hash _ _ := "digest"
  handler := { tenantId := "tnt_1", ruleset := .ofRules 1 [], salt := "salt" }
  store := {}
  recordAndGather _ _ _ _ _ := .window { now := 0 }
  now := ⟨0, 0⟩
  decisionId := "dec_1"
  idempotencyKey := "key-1"
  latencyMs := 5
  accepts _ := true

theorem persisted_eq_plain :
    plainSetting.persisted plainTransaction =
        plainSetting.persisted (plainTransaction.withRef "usr_2") ↔
      plainSetting.persisted plainTransaction = none ∧
        plainSetting.persisted (plainTransaction.withRef "usr_2") = none :=
  (plainSetting.persisted_eq_iff plainTransaction "usr_2" (by decide) rfl).1

theorem plain_rows_differ :
    (plainSetting.persisted plainTransaction).isSome ∧
      plainSetting.persisted plainTransaction ≠
        plainSetting.persisted (plainTransaction.withRef "usr_2") := by
  refine ⟨rfl, fun h => ?_⟩
  have hcontext : some (some (Value.str "usr_1")) = some (some (.str "usr_2")) :=
    congrArg (Option.map fun rows : DecisionRow × IdempotencyRecord =>
      rows.1.context.get? "customer_ref") h
  simp at hcontext

end ComplyLayer
