import ComplyLayer.Api.Decision
import ComplyLayer.Theory.Runs

/-!
# One answer per idempotency key

Any number of requests carry one tenant and key, and their steps interleave. The record of the key
is written once and answers every retry; the decision row is written by every request that saves.
So the requests agree on one response and one decision exactly when no request saves after another
has.
-/

namespace ComplyLayer

open Theory

/-- The response a request has, or has sent. -/
def Progress.response? : Progress → Option (Dict String Value)
  | ready response | answered response => some response
  | _ => none

def DecisionStep.request : DecisionStep → Nat
  | .find r | .evaluate r _ _ _ _ _ | .save r | .answer r | .abort r => r

namespace World

variable {w : World}

@[simp] theorem advance_db (w : World) (r : Nat) (p : Progress) : (w.advance r p).db = w.db := rfl

@[simp] theorem advance_progress_self (w : World) (r : Nat) (p : Progress) :
    (w.advance r p).progress r = p :=
  if_pos rfl

theorem advance_progress_of_ne (w : World) (p : Progress) (h : i ≠ r) :
    (w.advance r p).progress i = w.progress i :=
  if_neg h

/-- The decision rows of a tenant and key. -/
def decisionsOf (w : World) (k : String × String) : List DecisionRow :=
  w.db.decisions.rows.filter fun row => row.idempotency = k

/-- Every answered request of the key got the response the key's record stores, and then there is
exactly one decision row for the key; there is never more than one. -/
structure Agrees (requests : Nat → DecisionRequest) (k : String × String) (w : World) : Prop where
  answers : ∀ r response, (requests r).idempotency = k → w.progress r = .answered response →
    (∃ record, w.db.records.find? k = some record ∧ response = record.responseBody) ∧
      (w.decisionsOf k).length = 1
  atMostOne : (w.decisionsOf k).length ≤ 1

/-- Nothing is stored for the key and no request of it has begun. -/
structure Fresh (requests : Nat → DecisionRequest) (k : String × String) (w : World) : Prop where
  record : w.db.records.find? k = none
  decisions : w.decisionsOf k = []
  received : ∀ r, (requests r).idempotency = k → w.progress r = .received

end World

section
variable {py : Python} {hash : HashCustomerRef} {requests : Nat → DecisionRequest}
  {k : String × String} {w w' : World}

/-! ## What a step does -/

/-- What saving a decision does to the two tables. -/
theorem DecisionRequest.record_spec {request : DecisionRequest}
    (h : request.handler.record py hash db body request.transaction request.idempotencyKey =
      some db') :
    (∃ decision, decision.idempotency = request.idempotency ∧
      db'.decisions.rows = db.decisions.rows ++ [decision]) ∧
    ∃ record, record.responseBody = publicBody body ∧ ∀ k, db'.records.find? k =
      if request.idempotency = k then some ((db.records.find? k).getD record)
      else db.records.find? k := by
  obtain ⟨decision, record, hrows, hinsert, hrecords, -⟩ := DatabaseStore.save_eq_some_iff.mp h
  obtain ⟨hdecision, hrecord, hbody⟩ := DatabaseStore.rowsOf_spec hrows
  refine ⟨⟨decision, hdecision, (Table.insert?_eq_some_iff.mp hinsert).2⟩, record, hbody, ?_⟩
  intro k
  rw [hrecords, Table.find?_getOrCreate, hrecord]
  rfl

/-- A step replays a stored response, saves a decision, sends a response, or leaves a request
without one. -/
theorem decisionStep_cases (h : decisionStep py hash requests w e = some w') :
    (∃ r record, w.db.records.find? (requests r).idempotency = some record ∧
      w' = w.advance r (.ready record.responseBody)) ∨
    (∃ r body db, e = .save r ∧ w.progress r = .decided body ∧
      (requests r).handler.record py hash w.db body (requests r).transaction
        (requests r).idempotencyKey = some db ∧
      w' = { w with db := db }.advance r (.ready (publicBody body))) ∨
    (∃ r response, w.progress r = .ready response ∧ w' = w.advance r (.answered response)) ∨
    ∃ r p, p.response? = none ∧ w' = w.advance r p := by
  cases e with
  | find r =>
    simp only [decisionStep] at h
    split at h
    · split at h
      · rename_i response hfind
        cases h
        obtain ⟨record, hrecord, rfl⟩ := Option.map_eq_some_iff.mp hfind
        exact .inl ⟨r, record, hrecord, rfl⟩
      · cases h
        exact .inr (.inr (.inr ⟨r, _, rfl, rfl⟩))
    · cases h
  | evaluate r velocity store now decisionId latencyMs =>
    simp only [decisionStep] at h
    split at h
    · split at h <;> cases h <;> exact .inr (.inr (.inr ⟨r, _, rfl, rfl⟩))
    · cases h
  | save r =>
    simp only [decisionStep] at h
    split at h
    · rename_i body hprogress
      split at h
      · rename_i db hrecord
        cases h
        exact .inr (.inl ⟨r, body, db, rfl, hprogress, hrecord, rfl⟩)
      · cases h
        exact .inr (.inr (.inr ⟨r, _, rfl, rfl⟩))
    · cases h
  | answer r =>
    simp only [decisionStep] at h
    split at h
    · rename_i response hprogress
      cases h
      exact .inr (.inr (.inl ⟨r, response, hprogress, rfl⟩))
    · cases h
  | abort r =>
    simp only [decisionStep] at h
    split at h
    · cases h
    · cases h
      exact .inr (.inr (.inr ⟨r, _, rfl, rfl⟩))

/-- A step moves its own request on, and writes to the tables only where it saves what the request
decided; what a request decides is what its handler decides. -/
theorem decisionStep_moves (h : decisionStep py hash requests w e = some w') :
    (∃ p, w' = w.advance e.request p ∧ ∀ body, p = .decided body →
      ∃ store velocity now decisionId made, ∃ latencyMs : Int,
        (requests e.request).handler.decide py store (requests e.request).transaction velocity now
          decisionId = .ok made ∧ body = made.set "latency_ms" (.int latencyMs)) ∨
    ∃ body db, w.progress e.request = .decided body ∧
      (requests e.request).handler.record py hash w.db body (requests e.request).transaction
        (requests e.request).idempotencyKey = some db ∧
      w' = { w with db := db }.advance e.request (.ready (publicBody body)) := by
  cases e with
  | find r =>
    simp only [decisionStep] at h
    split at h
    · split at h <;> cases h <;> exact .inl ⟨_, rfl, nofun⟩
    · cases h
  | evaluate r velocity store now decisionId latencyMs =>
    simp only [decisionStep] at h
    split at h
    · split at h
      · rename_i made hdecide
        cases h
        refine .inl ⟨_, rfl, fun body hbody => ?_⟩
        cases hbody
        exact ⟨store, velocity, now, decisionId, made, latencyMs, hdecide, rfl⟩
      · cases h
        exact .inl ⟨_, rfl, nofun⟩
    · cases h
  | save r =>
    simp only [decisionStep] at h
    split at h
    · rename_i body hprogress
      split at h
      · rename_i db hrecord
        cases h
        exact .inr ⟨body, db, hprogress, hrecord, rfl⟩
      · cases h
        exact .inl ⟨_, rfl, nofun⟩
    · cases h
  | answer r =>
    simp only [decisionStep] at h
    split at h
    · cases h
      exact .inl ⟨_, rfl, nofun⟩
    · cases h
  | abort r =>
    simp only [decisionStep] at h
    split at h
    · cases h
    · cases h
      exact .inl ⟨_, rfl, nofun⟩

/-! ## The invariants -/

/-- A recorded key has a decision row, in every run. -/
def HasRow (k : String × String) (w : World) : Prop :=
  (w.db.records.find? k).isSome → 1 ≤ (w.decisionsOf k).length

theorem decisionsOf_save {db : Database} (p : Progress)
    (hrows : db.decisions.rows = w.db.decisions.rows ++ [decision]) :
    ({ w with db := db }.advance r p).decisionsOf k =
      w.decisionsOf k ++ if decision.idempotency = k then [decision] else [] := by
  simp only [World.decisionsOf, World.advance_db, hrows, List.filter_append, List.filter_singleton]
  by_cases hk : decision.idempotency = k <;> simp [hk]

theorem hasRow_step (hinv : HasRow k w) (h : decisionStep py hash requests w e = some w') :
    HasRow k w' := by
  rcases decisionStep_cases h with ⟨r, record, -, rfl⟩ | ⟨r, body, db, -, -, hsave, rfl⟩ |
    ⟨r, response, -, rfl⟩ | ⟨r, p, -, rfl⟩
  · exact hinv
  · obtain ⟨⟨decision, hkey, hrows⟩, record, -, hfind⟩ := DecisionRequest.record_spec hsave
    intro hsome
    rw [decisionsOf_save _ hrows, List.length_append, hkey]
    rw [World.advance_db, hfind k] at hsome
    split at hsome
    · rename_i hk
      rw [if_pos hk, List.length_singleton]
      omega
    · have := hinv hsome
      omega
  · exact hinv
  · exact hinv

/-- The record, the decision row and the responses of the key go together. -/
structure KeyInvariant (requests : Nat → DecisionRequest) (k : String × String) (w : World) :
    Prop where
  count : (w.decisionsOf k).length = if (w.db.records.find? k).isSome then 1 else 0
  responses : ∀ r response, (requests r).idempotency = k →
    (w.progress r).response? = some response →
    ∃ record, w.db.records.find? k = some record ∧ response = record.responseBody

theorem World.Fresh.keyInvariant (h : w.Fresh requests k) : KeyInvariant requests k w where
  count := by rw [h.decisions, h.record]; rfl
  responses r response hr hresponse := by
    rw [h.received r hr] at hresponse
    cases hresponse

theorem KeyInvariant.agrees (h : KeyInvariant requests k w) : w.Agrees requests k where
  answers r response hr hanswered := by
    have hresponse : (w.progress r).response? = some response := by rw [hanswered]; rfl
    obtain ⟨record, hrecord, heq⟩ := h.responses r response hr hresponse
    refine ⟨⟨record, hrecord, heq⟩, ?_⟩
    rw [h.count, hrecord]
    rfl
  atMostOne := by
    rw [h.count]
    split <;> omega

/-- When a request of the key saves, no other has saved for it: the key still has no record. (A
save the database refuses is none.) -/
def SavesFirst (py : Python) (hash : HashCustomerRef) (requests : Nat → DecisionRequest)
    (k : String × String) (w : World) (e : DecisionStep) : Prop :=
  ∀ r body, e = .save r → (requests r).idempotency = k → w.progress r = .decided body →
    ((requests r).handler.record py hash w.db body (requests r).transaction
      (requests r).idempotencyKey).isSome →
    w.db.records.find? k = none

/-- A response that appears is the record's. -/
theorem KeyInvariant.advance (h : KeyInvariant requests k w)
    (hp : ∀ response, (requests r).idempotency = k → p.response? = some response →
      ∃ record, w.db.records.find? k = some record ∧ response = record.responseBody) :
    KeyInvariant requests k (w.advance r p) where
  count := h.count
  responses i response hi hresponse := by
    by_cases hir : i = r
    · subst hir
      rw [World.advance_progress_self] at hresponse
      exact hp response hi hresponse
    · rw [World.advance_progress_of_ne w p hir] at hresponse
      exact h.responses i response hi hresponse

theorem keyInvariant_step (hinv : KeyInvariant requests k w)
    (hfirst : SavesFirst py hash requests k w e)
    (h : decisionStep py hash requests w e = some w') : KeyInvariant requests k w' := by
  rcases decisionStep_cases h with ⟨r, record, hrecord, rfl⟩ |
    ⟨r, body, db, rfl, hprogress, hsave, rfl⟩ | ⟨r, response, hready, rfl⟩ | ⟨r, p, hnone, rfl⟩
  · refine hinv.advance fun response hr hresponse => ⟨record, hr ▸ hrecord, ?_⟩
    exact (Option.some.inj hresponse).symm
  · have hsome := hfirst r body rfl
    obtain ⟨⟨decision, hkey, hrows⟩, record, hbody, hfind⟩ := DecisionRequest.record_spec hsave
    by_cases hr : (requests r).idempotency = k
    · have hnone : w.db.records.find? k = none := hsome hr hprogress (by rw [hsave]; rfl)
      have hnew : db.records.find? k = some record := by
        rw [hfind k, if_pos hr, hnone]
        rfl
      have hcount : (w.decisionsOf k).length = 0 := by
        rw [hinv.count, hnone]
        rfl
      constructor
      · rw [decisionsOf_save _ hrows, hkey, if_pos hr, World.advance_db, hnew, List.length_append,
          hcount]
        rfl
      · intro i response hi hresponse
        refine ⟨record, hnew, ?_⟩
        by_cases hir : i = r
        · subst hir
          rw [World.advance_progress_self] at hresponse
          rw [hbody]
          exact (Option.some.inj hresponse).symm
        · -- No other request of the key has a response before the key has a record.
          rw [World.advance_progress_of_ne _ _ hir] at hresponse
          obtain ⟨old, hold, -⟩ := hinv.responses i response hi hresponse
          rw [hnone] at hold
          cases hold
    · have hsame : db.records.find? k = w.db.records.find? k := by
        rw [hfind k, if_neg hr]
      constructor
      · rw [decisionsOf_save _ hrows, hkey, if_neg hr, List.append_nil, World.advance_db, hsame]
        exact hinv.count
      · intro i response hi hresponse
        have hir : i ≠ r := by
          rintro rfl
          exact hr hi
        rw [World.advance_progress_of_ne _ _ hir] at hresponse
        rw [World.advance_db, hsame]
        exact hinv.responses i response hi hresponse
  · refine hinv.advance fun response' hr hresponse => ?_
    refine hinv.responses r response' hr ?_
    rw [hready]
    exact hresponse
  · refine hinv.advance fun response _ hresponse => ?_
    rw [hnone] at hresponse
    cases hresponse

/-- A second save for the key leaves two decision rows. -/
theorem not_agrees_of_second_save (hrow : HasRow k w)
    (h : decisionStep py hash requests w e = some w')
    (hsecond : ¬ SavesFirst py hash requests k w e) : ¬ w'.Agrees requests k := by
  unfold SavesFirst at hsecond
  push Not at hsecond
  obtain ⟨r, body, rfl, hr, hprogress, hsome, hrecord⟩ := hsecond
  obtain ⟨db, hsave⟩ := Option.isSome_iff_exists.mp hsome
  simp only [decisionStep, hprogress, hsave, Option.some.injEq] at h
  subst h
  intro hagrees
  obtain ⟨⟨decision, hkey, hrows⟩, -⟩ := DecisionRequest.record_spec hsave
  have hcount := hagrees.atMostOne
  rw [decisionsOf_save _ hrows, hkey, if_pos hr, List.length_append, List.length_singleton] at hcount
  have := hrow (Option.isSome_iff_ne_none.mpr hrecord)
  omega

/-- **One answer per key.** From a state in which nothing is stored for the key, all requests of
the key agree in every state a run reaches exactly when no request of the key saves after another
has saved. -/
theorem idempotent_iff (hfresh : w.Fresh requests k)
    (hrun : run (decisionStep py hash requests) w es = some w') :
    (∀ pre rest v, es = pre ++ rest → run (decisionStep py hash requests) w pre = some v →
      v.Agrees requests k) ↔
    Along (decisionStep py hash requests) (SavesFirst py hash requests k) w es := by
  constructor
  · have hrow : HasRow k w := by
      intro hsome
      rw [hfresh.record] at hsome
      cases hsome
    clear hfresh
    intro hall
    induction es generalizing w with
    | nil => trivial
    | cons e es ih =>
      obtain ⟨v, hstep, hrest⟩ := run_cons_eq_some.mp hrun
      constructor
      · by_contra hsecond
        refine not_agrees_of_second_save hrow hstep hsecond (hall [e] es v rfl ?_)
        exact run_cons_eq_some.mpr ⟨v, hstep, rfl⟩
      · intro t ht
        cases hstep.symm.trans ht
        refine ih hrest (hasRow_step hrow hstep) fun pre rest u hes hu => ?_
        exact hall (e :: pre) rest u (by rw [hes]; rfl) (run_cons_eq_some.mpr ⟨v, hstep, hu⟩)
  · rintro hguard pre rest v rfl hv
    have hpre := ((along_append hv).mp hguard).1
    exact (hpre.invariant (fun _ _ _ => keyInvariant_step) hfresh.keyInvariant hv).agrees

end

/-! Two requests of one key, one after the other and then overlapping. -/

def samplePython : Python := .reading "" (.name "amount_minor")

def sampleRequest : DecisionRequest where
  handler := { tenantId := "tnt_1", ruleset := .ofRules 1 [], salt := "salt" }
  transaction :=
    { transactionRef := "TXN-1", customerRef := "usr_1", amountMinor := 100, currency := "NGN" }
  idempotencyKey := "key-1"

def sampleEvaluate (r : Nat) (decisionId : String) : DecisionStep :=
  .evaluate r (.window { now := 0 }) {} ⟨0, 0⟩ decisionId 5

theorem fresh_start (k : String × String) :
    World.Fresh (fun _ => sampleRequest) k ⟨{}, fun _ => .received⟩ :=
  ⟨rfl, rfl, fun _ _ => rfl⟩

/-- A retry after the answer. -/
def retrySteps : List DecisionStep :=
  [.find 0, sampleEvaluate 0 "dec_0", .save 0, .answer 0, .find 1, .answer 1]

theorem idempotent_retry :
    ∃ w, run (decisionStep samplePython (fun ref _ => ref) fun _ => sampleRequest)
        ⟨{}, fun _ => .received⟩ retrySteps = some w ∧
      w.Agrees (fun _ => sampleRequest) ("tnt_1", "key-1") := by
  obtain ⟨w, hw⟩ : ∃ w, run (decisionStep samplePython (fun ref _ => ref) fun _ => sampleRequest)
      ⟨{}, fun _ => .received⟩ retrySteps = some w := ⟨_, rfl⟩
  have hfirst : Along (decisionStep samplePython (fun ref _ => ref) fun _ => sampleRequest)
      (SavesFirst samplePython (fun ref _ => ref) (fun _ => sampleRequest) ("tnt_1", "key-1"))
      ⟨{}, fun _ => .received⟩ retrySteps := by
    refine ⟨by rintro r body ⟨⟩, fun _ h => ?_⟩
    cases h
    refine ⟨by rintro r body ⟨⟩, fun _ h => ?_⟩
    cases h
    refine ⟨by rintro r body ⟨⟩ - - -; rfl, fun _ h => ?_⟩
    cases h
    refine ⟨by rintro r body ⟨⟩, fun _ h => ?_⟩
    cases h
    refine ⟨by rintro r body ⟨⟩, fun _ h => ?_⟩
    cases h
    exact ⟨by rintro r body ⟨⟩, fun _ h => trivial⟩
  refine ⟨w, hw, (idempotent_iff (fresh_start _) hw).mpr hfirst retrySteps [] w ?_ hw⟩
  exact (List.append_nil retrySteps).symm

/-- Both requests look before either saves. -/
def overlappingSteps : List DecisionStep :=
  [.find 0, .find 1, sampleEvaluate 0 "dec_0", sampleEvaluate 1 "dec_1", .save 0, .save 1,
    .answer 0, .answer 1]

theorem overlapping_disagree :
    ∃ w b₀ b₁, run (decisionStep samplePython (fun ref _ => ref) fun _ => sampleRequest)
        ⟨{}, fun _ => .received⟩ overlappingSteps = some w ∧
      w.progress 0 = .answered b₀ ∧ w.progress 1 = .answered b₁ ∧ b₀ ≠ b₁ ∧
      (w.decisionsOf ("tnt_1", "key-1")).length = 2 := by
  refine ⟨_, _, _, rfl, rfl, rfl, fun h => ?_, rfl⟩
  have hid : some (Value.str "dec_0") = some (.str "dec_1") :=
    congrArg (fun b => b.get? "decision_id") h
  simp at hid

end ComplyLayer
