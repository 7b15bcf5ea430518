import ComplyLayer.Sdk.Node

/-!
# The fallback of the client

Every exception of the request ends in the fallback: that nothing was reached, and also that the
server answered with an error, or with what is no decision. So the outcome of a response is the one
that `check` acts on exactly where the response is a decision.
-/

namespace ComplyLayer.Sdk

/-- The response that `fetch` came to, where it was called and came to one. -/
def received (js : JavaScript) (client : Client) (fetch : Request → Fetched)
    (transaction : JsValue) : Option Response :=
  (transaction.get js "transactionRef" >>= fun reference =>
    client.request js reference transaction).toOption.bind fun request => (fetch request).response?

/-- The decision of a response: of a status of success, with a body that reads as one. -/
def Response.decision? (js : JavaScript) (response : Response) : Option Decision :=
  if response.ok then (response.json >>= fromPayload js).toOption else none

def Thrown.IsBlocked : Thrown → Prop
  | .complianceBlocked _ _ _ => True
  | _ => False

/-- What the outcome of a decision asks for: to throw, with what the decision says, exactly where it
is a block. -/
def Honours (result : Except Thrown Decision) (decision : Decision) : Prop :=
  (decision.outcome.isText "block" = true ∧ ∃ message, result =
    .error (.complianceBlocked message decision.decisionId decision.matchedRules)) ∨
  (decision.outcome.isText "block" = false ∧ result = .ok decision)

/-- Once there is a response, `check` does what its outcome asks for, or where it is no decision
throws an error that is no block. -/
def ByResponse (js : JavaScript) (client : Client) (fetch : Request → Fetched)
    (transaction : JsValue) : Prop :=
  ∀ response, received js client fetch transaction = some response →
    (∀ decision, response.decision? js = some decision →
      Honours (client.check js fetch transaction) decision) ∧
    (response.decision? js = none →
      ∃ thrown, client.check js fetch transaction = .error thrown ∧ ¬ thrown.IsBlocked)

section
variable {js : JavaScript} {client : Client} {fetch : Request → Fetched} {transaction : JsValue}
  {response : Response} {decision : Decision}

theorem honours_conclude (decision : Decision) : Honours (Client.conclude decision) decision := by
  rw [Client.conclude]
  cases hblock : decision.outcome.isText "block" with
  | true => exact .inl ⟨hblock, _, if_pos rfl⟩
  | false => exact .inr ⟨hblock, if_neg Bool.false_ne_true⟩

theorem read_of_decision (h : response.decision? js = some decision) :
    Client.read js response = .ok decision := by
  rw [Response.decision?] at h
  rw [Client.read]
  split at h
  · rw [if_pos ‹_›]
    cases hread : response.json >>= fromPayload js with
    | ok found =>
      rw [hread] at h
      cases h
      rfl
    | error error =>
      rw [hread] at h
      cases h
  · cases h

theorem read_of_no_decision (h : response.decision? js = none) :
    ∃ message, Client.read js response = .error message := by
  rw [Response.decision?] at h
  rw [Client.read]
  split at h
  · rw [if_pos ‹_›]
    cases hread : response.json >>= fromPayload js with
    | ok found =>
      rw [hread] at h
      cases h
    | error error => exact ⟨_, rfl⟩
  · rw [if_neg ‹_›]
    cases response.text with
    | ok detail => exact ⟨_, rfl⟩
    | error error => exact ⟨_, rfl⟩

/-- With a response, what is posted comes to what is read of it. -/
theorem post_of_received {reference : JsValue}
    (href : transaction.get js "transactionRef" = .ok reference)
    (h : received js client fetch transaction = some response) :
    client.post js fetch reference transaction = Client.read js response := by
  rw [received, href] at h
  obtain ⟨request, hrequest, hfetch⟩ := Option.bind_eq_some_iff.mp h
  have hok : client.request js reference transaction = .ok request := by
    cases hmade : client.request js reference transaction with
    | ok made =>
      rw [show (Except.ok reference >>= fun r => client.request js r transaction) =
        client.request js reference transaction from rfl, hmade] at hrequest
      exact congrArg Except.ok (Option.some.inj hrequest)
    | error error =>
      rw [show (Except.ok reference >>= fun r => client.request js r transaction) =
        client.request js reference transaction from rfl, hmade] at hrequest
      cases hrequest
  cases hfetched : fetch request with
  | rejected error =>
    rw [hfetched] at hfetch
    cases hfetch
  | responded found =>
    rw [hfetched] at hfetch
    cases hfetch
    rw [Client.post, hok]
    simp only [hfetched]

theorem check_of_ok {reference : JsValue}
    (href : transaction.get js "transactionRef" = .ok reference) (htruthy : reference.truthy = true)
    (h : client.post js fetch reference transaction = .ok decision) :
    client.check js fetch transaction = Client.conclude decision := by
  rw [Client.check, href]
  simp only [htruthy, if_true, h]

theorem check_of_error {reference : JsValue}
    (href : transaction.get js "transactionRef" = .ok reference) (htruthy : reference.truthy = true)
    (h : client.post js fetch reference transaction = .error message) :
    client.check js fetch transaction = Client.conclude (client.degraded message) := by
  rw [Client.check, href]
  simp only [htruthy, if_true, h]

/-- The fallback is a decision that goes through, or a block. -/
theorem conclude_degraded (client : Client) (message : String) :
    (client.fallback = .allow ∧
      Client.conclude (client.degraded message) = .ok (client.degraded message)) ∨
    (client.fallback = .block ∧ ∃ thrown,
      Client.conclude (client.degraded message) = .error thrown ∧ thrown.IsBlocked) := by
  rw [Client.conclude, Client.degraded]
  cases client.fallback with
  | allow => exact .inl ⟨rfl, rfl⟩
  | block => exact .inr ⟨rfl, _, rfl, trivial⟩

/-- **The fallback answers for the server.** For a transaction with a reference, whichever fallback is
configured, `check` goes by the response exactly when there is none, or the one there is has a
status of success and a body that reads as a decision. -/
theorem by_response_iff (href : transaction.get js "transactionRef" = .ok reference)
    (htruthy : reference.truthy = true) :
    ByResponse js client fetch transaction ↔
      ∀ response, received js client fetch transaction = some response →
        ∃ decision, response.decision? js = some decision := by
  refine forall_congr' fun response => forall_congr' fun hreceived => ?_
  have hpost := post_of_received href hreceived
  cases hdecision : response.decision? js with
  | some decision =>
    rw [read_of_decision hdecision] at hpost
    refine iff_of_true ⟨fun found hfound => ?_, fun hnone => by cases hnone⟩ ⟨decision, rfl⟩
    cases hfound
    rw [check_of_ok href htruthy hpost]
    exact honours_conclude decision
  | none =>
    obtain ⟨message, hmessage⟩ := read_of_no_decision hdecision
    rw [hmessage] at hpost
    refine iff_of_false (fun h => ?_) fun ⟨decision, h⟩ => by cases h
    obtain ⟨thrown, hthrown, hblocked⟩ := h.2 rfl
    rw [check_of_error href htruthy hpost] at hthrown
    rcases conclude_degraded client message with ⟨-, hok⟩ | ⟨-, raised, herror, hraised⟩
    · cases hok.symm.trans hthrown
    · cases herror.symm.trans hthrown
      exact hblocked hraised

end

/-! An allowed transaction, and one that the server refuses to read. -/

def plainRuntime : JavaScript where
  slice text n := (text.take n).toString
  stringify _ := .ok "{}"
  readMessage _ property := "Cannot read properties of null (reading '" ++ property ++ "')"
  callMessage expression := expression ++ " is not a function"

def openClient : Client := ⟨"cl_test_x", .allow, "https://api.complylayer.dev", 150⟩

def plainTransaction : JsValue :=
  .object [("transactionRef", .string "TXN-7"), ("customerRef", .string "u"),
    ("amountMinor", .number (.finite 1)), ("currency", .string "NGN")]

def respond (status : Nat) (body : JsValue) (_ : Request) : Fetched :=
  .responded ⟨status, .ok "", .ok body⟩

theorem by_response_allowed : ByResponse plainRuntime openClient
    (respond 200 (.object [("outcome", .string "allow")])) plainTransaction := by
  have href : plainTransaction.get plainRuntime "transactionRef" = .ok (.string "TXN-7") := rfl
  refine (by_response_iff href rfl).mpr fun response h => ?_
  cases h
  exact ⟨_, rfl⟩

theorem refusal_falls_back :
    Client.new "cl_test_x" (.string "allow") none none = .ok openClient ∧
    ¬ ByResponse plainRuntime openClient
      (respond 400 (.object [("error", .string "unknown_field")])) plainTransaction ∧
    ∃ decision, openClient.check plainRuntime
        (respond 400 (.object [("error", .string "unknown_field")])) plainTransaction =
          .ok decision ∧
      decision.outcome.isText "allow" = true := by
  have hcheck : openClient.check plainRuntime
      (respond 400 (.object [("error", .string "unknown_field")])) plainTransaction =
        .ok (openClient.degraded "ComplyLayer returned 400: ") := rfl
  refine ⟨rfl, fun h => ?_, _, hcheck, rfl⟩
  obtain ⟨thrown, hthrown, -⟩ := (h ⟨400, .ok "", .ok _⟩ rfl).2 rfl
  cases hcheck.symm.trans hthrown

end ComplyLayer.Sdk
