import Mathlib.Algebra.Order.Ring.Rat

/-!
# The client for Node

`sdk/node/src/index.js`, over the values of JavaScript that it handles: what it sends, what it makes
of what `fetch` does, and what it returns or throws.
-/

namespace ComplyLayer.Sdk

inductive JsNumber where
  | finite (value : ℚ)
  | infinite (negative : Bool)
  | nan

inductive JsValue where
  | undefined
  | null
  | bool (b : Bool)
  | number (n : JsNumber)
  | bigint (n : Int)
  | string (s : String)
  | array (items : List JsValue)
  | object (properties : List (String × JsValue))
  /-- A `Date`, with its ISO text where it is a valid one. -/
  | date (iso : Option String)

/-- An exception of the language or of the platform. -/
structure JsError where
  name : String
  message : String

/-- What the client leaves to its runtime. -/
structure JavaScript where
  /-- `text.slice(0, n)`, which counts UTF-16 code units. -/
  slice : String → Nat → String
  /-- `JSON.stringify`. -/
  stringify : JsValue → Except JsError String
  /-- The message where a property of `undefined` or `null` is read. -/
  readMessage : JsValue → String → String
  /-- The message where what is called is no function. -/
  callMessage : String → String

namespace JsValue

def truthy : JsValue → Bool
  | undefined | null | number .nan => false
  | bool b => b
  | number (.finite value) => value ≠ 0
  | bigint n => n ≠ 0
  | string s => s ≠ ""
  | number (.infinite _) | array _ | object _ | date _ => true

/-- `value === text`. -/
def isText (text : String) : JsValue → Bool
  | string s => s == text
  | _ => false

/-- `value.property`, for a property that only plain objects have. -/
def get (js : JavaScript) (value : JsValue) (property : String) : Except JsError JsValue :=
  match value with
  | undefined | null => .error ⟨"TypeError", js.readMessage value property⟩
  | object properties => .ok ((properties.lookup property).getD undefined)
  | _ => .ok undefined

end JsValue

/-! ## What is sent -/

/-- `asIso`. -/
def asIso : JsValue → Except JsError JsValue
  | .date (some iso) => .ok (.string iso)
  | .date none => .error ⟨"RangeError", "Invalid time value"⟩
  | value => .ok value

/-- A property that is set where its value is truthy. -/
def whereTruthy (name : String) (value : JsValue) : List (String × JsValue) :=
  if value.truthy then [(name, value)] else []

/-- A property that is set where its value is not `undefined`. -/
def whereDefined (name : String) : JsValue → List (String × JsValue)
  | .undefined => []
  | value => [(name, value)]

/-- A moment, where it is truthy, as ISO text. -/
def momentProperty (name : String) (value : JsValue) : Except JsError (List (String × JsValue)) :=
  if value.truthy then do
    let iso ← asIso value
    pure [(name, iso)]
  else pure []

def customerProperty (js : JavaScript) (customer : JsValue) :
    Except JsError (List (String × JsValue)) :=
  if customer.truthy then do
    let kycTier ← customer.get js "kycTier"
    let accountCreatedAt ← customer.get js "accountCreatedAt"
    let lastTransactionAt ← customer.get js "lastTransactionAt"
    let country ← customer.get js "country"
    let created ← momentProperty "account_created_at" accountCreatedAt
    let last ← momentProperty "last_transaction_at" lastTransactionAt
    pure [("customer", .object
      (whereDefined "kyc_tier" kycTier ++ created ++ last ++ whereTruthy "country" country))]
  else pure []

def destinationProperty (js : JavaScript) (destination : JsValue) :
    Except JsError (List (String × JsValue)) :=
  if destination.truthy then do
    let country ← destination.get js "country"
    let bankCode ← destination.get js "bankCode"
    let isNewBeneficiary ← destination.get js "isNewBeneficiary"
    pure [("destination", .object (whereTruthy "country" country ++
      whereTruthy "bank_code" bankCode ++ whereDefined "is_new_beneficiary" isNewBeneficiary))]
  else pure []

def deviceProperty (js : JavaScript) (device : JsValue) :
    Except JsError (List (String × JsValue)) :=
  if device.truthy then do
    let id ← device.get js "id"
    let ipCountry ← device.get js "ipCountry"
    pure [("device", .object (whereTruthy "id" id ++ whereTruthy "ip_country" ipCountry))]
  else pure []

/-- `toPayload`. -/
def toPayload (js : JavaScript) (transaction : JsValue) : Except JsError JsValue := do
  let transactionRef ← transaction.get js "transactionRef"
  let customerRef ← transaction.get js "customerRef"
  let amountMinor ← transaction.get js "amountMinor"
  let currency ← transaction.get js "currency"
  let transactionType ← transaction.get js "transactionType"
  let channel ← transaction.get js "channel"
  let customer ← transaction.get js "customer" >>= customerProperty js
  let destination ← transaction.get js "destination" >>= destinationProperty js
  let device ← transaction.get js "device" >>= deviceProperty js
  pure (.object ([("transaction_ref", transactionRef), ("customer_ref", customerRef),
    ("amount_minor", amountMinor), ("currency", currency)] ++
    whereTruthy "transaction_type" transactionType ++ whereTruthy "channel" channel ++
    customer ++ destination ++ device))

structure Request where
  url : String
  authorization : String
  idempotencyKey : JsValue
  body : String
  /-- Milliseconds until the request is aborted. -/
  timeout : Nat

/-! ## What comes back -/

structure Response where
  status : Nat
  /-- `await response.text()`. -/
  text : Except JsError String
  /-- `await response.json()`. -/
  json : Except JsError JsValue

def Response.ok (response : Response) : Bool := 200 ≤ response.status ∧ response.status ≤ 299

/-- What `fetch` does: it rejects, also when it is aborted, or there is a response. -/
inductive Fetched where
  | rejected (error : JsError)
  | responded (response : Response)

def Fetched.response? : Fetched → Option Response
  | rejected _ => none
  | responded response => some response

structure MatchedRule where
  id : JsValue
  name : JsValue
  severity : JsValue
  regulatoryReference : JsValue

structure Decision where
  decisionId : JsValue
  outcome : JsValue
  reason : JsValue
  matchedRules : List MatchedRule
  evaluatedRules : JsValue := .undefined
  rulesetVersion : JsValue := .undefined
  latencyMs : JsValue := .undefined
  degraded : JsValue
  decidedAt : JsValue := .undefined
  customerMessage : JsValue := .undefined

def matchedRule (js : JavaScript) (rule : JsValue) : Except JsError MatchedRule := do
  let id ← rule.get js "id"
  let name ← rule.get js "name"
  let severity ← rule.get js "severity"
  let regulatoryReference ← rule.get js "regulatory_reference"
  pure ⟨id, name, severity, regulatoryReference⟩

/-- `(value || []).map(…)`. -/
def matchedRules (js : JavaScript) (value : JsValue) : Except JsError (List MatchedRule) :=
  if value.truthy then
    match value with
    | .array rules => rules.mapM (matchedRule js)
    | _ => .error ⟨"TypeError", js.callMessage "(body.matched_rules || []).map"⟩
  else pure []

/-- `fromPayload`. -/
def fromPayload (js : JavaScript) (body : JsValue) : Except JsError Decision := do
  let decisionId ← body.get js "decision_id"
  let outcome ← body.get js "outcome"
  let reason ← body.get js "reason"
  let rules ← body.get js "matched_rules" >>= matchedRules js
  let evaluatedRules ← body.get js "evaluated_rules"
  let rulesetVersion ← body.get js "ruleset_version"
  let latencyMs ← body.get js "latency_ms"
  let degraded ← body.get js "degraded"
  let decidedAt ← body.get js "decided_at"
  let customerMessage ← body.get js "customer_message"
  pure ⟨decisionId, outcome, reason, rules, evaluatedRules, rulesetVersion, latencyMs, degraded,
    decidedAt, customerMessage⟩

/-! ## The client -/

inductive Thrown where
  | complianceBlocked (message decisionId : JsValue) (matchedRules : List MatchedRule)
  | complyLayer (message : String) (status : Option Nat)
  | other (error : JsError)

inductive Fallback where
  | allow | block
  deriving DecidableEq

def Fallback.text : Fallback → String
  | allow => "allow"
  | block => "block"

/-- The class `ComplyLayer`. -/
structure Client where
  apiKey : String
  fallback : Fallback
  baseUrl : String
  timeout : Nat

def fallbackRequired : String :=
  "fallback is required and must be 'allow' or 'block'. There is no default: this is what happens " ++
  "to your transactions when ComplyLayer is unreachable, and it should be a decision you made " ++
  "rather than one you inherited."

/-- The constructor. -/
def Client.new (apiKey : String) (fallback : JsValue) (baseUrl : Option String)
    (timeout : Option Nat) : Except Thrown Client :=
  if apiKey = "" then .error (.complyLayer "apiKey is required." none)
  else
    let url := baseUrl.getD "https://api.complylayer.dev"
    let trimmed :=
      if url.toList.getLast? = some '/' then String.ofList url.toList.dropLast else url
    if fallback.isText "allow" then .ok ⟨apiKey, .allow, trimmed, timeout.getD 150⟩
    else if fallback.isText "block" then .ok ⟨apiKey, .block, trimmed, timeout.getD 150⟩
    else .error (.complyLayer fallbackRequired none)

namespace Client

variable (js : JavaScript) (client : Client) (fetch : Request → Fetched)

/-- The request of a transaction. -/
def request (reference transaction : JsValue) : Except JsError Request := do
  let payload ← toPayload js transaction
  let body ← js.stringify payload
  pure {
    url := client.baseUrl ++ "/v1/decisions"
    authorization := "Bearer " ++ client.apiKey
    -- Always sent: a retry that produced a second decision would give one transaction two records.
    idempotencyKey := reference
    body
    timeout := client.timeout }

/-- What `#post` makes of a response: the decision, or the message of what it throws. -/
def read (response : Response) : Except String Decision :=
  if response.ok then
    match response.json >>= fromPayload js with
    | .ok decision => .ok decision
    | .error error => .error error.message
  else
    match response.text with
    | .ok detail =>
      .error ("ComplyLayer returned " ++ toString response.status ++ ": " ++ js.slice detail 200)
    | .error error => .error error.message

/-- `#post`, with the payload made before it: the decision, or the message of the exception. -/
def post (reference transaction : JsValue) : Except String Decision :=
  match client.request js reference transaction with
  | .error error => .error error.message
  | .ok request =>
    match fetch request with
    | .rejected error => .error error.message
    | .responded response => read js response

/-- The decision without one of the server. -/
def degraded (message : String) : Decision where
  decisionId := .null
  outcome := .string client.fallback.text
  reason := .string ("ComplyLayer was unreachable: " ++ message)
  matchedRules := []
  degraded := .bool true

/-- `check` after the decision is there: a block throws. -/
def conclude (decision : Decision) : Except Thrown Decision :=
  if decision.outcome.isText "block" then
    .error (.complianceBlocked
      (if decision.customerMessage.truthy then decision.customerMessage
        else .string "This transaction cannot be completed.")
      decision.decisionId decision.matchedRules)
  else .ok decision

/-- `check`. -/
def check (transaction : JsValue) : Except Thrown Decision :=
  match transaction.get js "transactionRef" with
  | .error error => .error (.other error)
  | .ok reference =>
    if reference.truthy then
      match client.post js fetch reference transaction with
      | .ok decision => conclude decision
      -- The fallback path: whatever was thrown.
      | .error message => conclude (client.degraded message)
    else .error (.complyLayer "transactionRef is required." none)

end Client

end ComplyLayer.Sdk
