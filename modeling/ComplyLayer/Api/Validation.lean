import ComplyLayer.Dsl.Python
import ComplyLayer.Theory.Dict
import ComplyLayer.Theory.Outcomes
import Mathlib.Data.List.Sort
import Mathlib.Data.String.Basic

/-!
# Validating a decision request

`api/errors.py` and `api/validation.py`, from the decoded body on. A body is the JSON object
`orjson.loads` returns, so its keys are distinct and in order.
-/

namespace ComplyLayer

open Theory

structure ApiError where
  code : String
  message : String
  status : Nat := 400
  field : String := ""
  deriving DecidableEq, Repr

def topLevelFields : List String :=
  ["transaction_ref", "customer_ref", "amount_minor", "currency", "transaction_type", "channel",
    "customer", "destination", "device"]

def requiredFields : List String := ["transaction_ref", "customer_ref", "amount_minor", "currency"]

def customerFields : List String := ["kyc_tier", "account_created_at", "country", "last_transaction_at"]

def destinationFields : List String := ["country", "bank_code", "is_new_beneficiary"]

def deviceFields : List String := ["id", "ip_country"]

structure Transaction where
  transactionRef : String
  customerRef : String
  amountMinor : Int
  currency : String
  transactionType : String := ""
  channel : String := ""
  customer : Dict String Value := ∅
  destination : Dict String Value := ∅
  device : Dict String Value := ∅

/-- `Transaction.as_context`: the stored input, exactly as received. -/
def Transaction.asContext (t : Transaction) : Dict String Value :=
  Dict.ofList
    [("transaction_ref", .str t.transactionRef),
      ("customer_ref", .str t.customerRef),
      ("amount_minor", .int t.amountMinor),
      ("currency", .str t.currency),
      ("transaction_type", .str t.transactionType),
      ("channel", .str t.channel),
      ("customer", .dict t.customer.entries),
      ("destination", .dict t.destination.entries),
      ("device", .dict t.device.entries)]

/-- `sorted(names)`. -/
def sortedNames (names : List String) : List String := names.insertionSort (· ≤ ·)

/-- `_reject_unknown`. -/
def rejectUnknown (payload : Dict String Value) (allowed : List String) (pre : String) :
    Except ApiError Unit :=
  match sortedNames (payload.keys.filter (· ∉ allowed)) with
  | [] => .ok ()
  | unknown :: _ =>
    let name := pre ++ unknown
    .error
      { code := "unknown_field"
        message := name ++ " is not a field ComplyLayer accepts. Unknown fields are refused " ++
          "rather than ignored, so nothing is stored that was never meant to arrive."
        field := name }

/-- `_require_text`, and the text it lets through. -/
def requireText (payload : Dict String Value) (name : String) : Except ApiError String :=
  match payload.get? name with
  | some (.str text) =>
    if text = "" then
      .error
        { code := "invalid_field", message := name ++ " must be a non-empty string.", field := name }
    else if 128 < text.length then
      .error
        { code := "invalid_field"
          message := name ++ " must be 128 characters or fewer."
          field := name }
    else .ok text
  | _ =>
    .error
      { code := "invalid_field", message := name ++ " must be a non-empty string.", field := name }

/-- A text that may be left out. -/
def optionalText (payload : Dict String Value) (name : String) : Except ApiError String :=
  if payload.contains name then requireText payload name else .ok ""

/-- The check of required fields: the first one missing, in order of name. -/
def requirePresent (payload : Dict String Value) : Except ApiError Unit :=
  match sortedNames (requiredFields.filter fun name => !payload.contains name) with
  | [] => .ok ()
  | name :: _ =>
    .error { code := "missing_field", message := name ++ " is required.", field := name }

def requireAmount (payload : Dict String Value) : Except ApiError Int :=
  match payload.get? "amount_minor" with
  | some (.int amount) =>
    if amount < 0 then
      .error
        { code := "invalid_amount"
          message := "amount_minor cannot be negative."
          field := "amount_minor" }
    else .ok amount
  | _ =>
    .error
      { code := "invalid_amount"
        message := "amount_minor must be a whole number of minor units (kobo, cents)."
        field := "amount_minor" }

def requireCurrency (py : Python) (currency : String) : Except ApiError Unit :=
  if currency.length ≠ 3 ∨ py.isalpha currency = false then
    .error
      { code := "invalid_currency", message := "currency must be a 3-letter ISO code.",
        field := "currency" }
  else .ok ()

/-- One of the three nested objects, `{}` when it is left out. -/
def nestedObject (payload : Dict String Value) (name : String) (allowed : List String) :
    Except ApiError (Dict String Value) :=
  match (payload.get? name).getD (.dict []) with
  | .dict entries => do
    let object := Dict.ofList entries
    rejectUnknown object allowed (name ++ ".")
    pure object
  | _ =>
    .error { code := "invalid_field", message := name ++ " must be an object.", field := name }

def parseTransaction (py : Python) (payload : Dict String Value) : Except ApiError Transaction := do
  rejectUnknown payload topLevelFields ""
  requirePresent payload
  let transactionRef ← requireText payload "transaction_ref"
  let customerRef ← requireText payload "customer_ref"
  let currency ← requireText payload "currency"
  let transactionType ← optionalText payload "transaction_type"
  let channel ← optionalText payload "channel"
  let amount ← requireAmount payload
  requireCurrency py currency
  let customer ← nestedObject payload "customer" customerFields
  let destination ← nestedObject payload "destination" destinationFields
  let device ← nestedObject payload "device" deviceFields
  pure
    { transactionRef := transactionRef
      customerRef := customerRef
      amountMinor := amount
      currency := py.upper currency
      transactionType := transactionType
      channel := channel
      customer := customer
      destination := destination
      device := device }

/-! ## What a validated transaction is -/

theorem requireAmount_nonneg (h : requireAmount payload = .ok amount) : 0 ≤ amount := by
  unfold requireAmount at h
  split at h
  · split at h
    · cases h
    · rename_i hneg
      cases h
      exact not_lt.mp hneg
  · cases h

/-- Without an unknown field every field is one of those allowed. -/
theorem rejectUnknown_ok (h : rejectUnknown payload allowed pre = .ok ()) :
    ∀ name ∈ payload.keys, name ∈ allowed := by
  intro name hname
  by_contra hunknown
  have hmem : name ∈ sortedNames (payload.keys.filter (· ∉ allowed)) := by
    rw [sortedNames, List.mem_insertionSort]
    exact List.mem_filter.mpr ⟨hname, decide_eq_true hunknown⟩
  unfold rejectUnknown at h
  split at h
  · rename_i hnone
    rw [hnone] at hmem
    cases hmem
  · cases h

theorem nestedObject_keys (h : nestedObject payload name allowed = .ok object) :
    ∀ key ∈ object.keys, key ∈ allowed := by
  unfold nestedObject at h
  split at h
  · obtain ⟨_, hknown, hobject⟩ := bind_eq_ok.mp h
    cases hobject
    exact rejectUnknown_ok hknown
  · cases h

/-- What a nested object holds is in the object the request sent. -/
theorem mem_of_nestedObject (h : nestedObject payload name allowed = .ok object)
    (hmem : entry ∈ object.entries) :
    ∃ entries, payload.get? name = some (.dict entries) ∧ entry ∈ entries := by
  unfold nestedObject at h
  split at h
  · rename_i entries hentries
    obtain ⟨_, -, hobject⟩ := bind_eq_ok.mp h
    cases hobject
    have hsent : entry ∈ entries :=
      Dict.mem_of_get?_ofList ((Dict.get?_eq_some_iff (Dict.ofList entries)).mpr hmem)
    cases hget : payload.get? name with
    | some value =>
      rw [hget] at hentries
      exact ⟨entries, congrArg some hentries, hsent⟩
    | none =>
      rw [hget] at hentries
      cases hentries
      cases hsent
  · cases h

theorem parseTransaction_nested {py : Python} {t : Transaction}
    (h : parseTransaction py payload = .ok t) :
    nestedObject payload "customer" customerFields = .ok t.customer ∧
      nestedObject payload "destination" destinationFields = .ok t.destination ∧
      nestedObject payload "device" deviceFields = .ok t.device := by
  simp only [parseTransaction, bind_eq_ok] at h
  obtain ⟨_, -, _, -, _, -, _, -, _, -, _, -, _, -, _, -, _, -, customer, hcustomer, destination,
    hdestination, device, hdevice, heq⟩ := h
  cases heq
  exact ⟨hcustomer, hdestination, hdevice⟩

theorem parseTransaction_ok {py : Python} {t : Transaction}
    (h : parseTransaction py payload = .ok t) :
    0 ≤ t.amountMinor ∧ ∀ key ∈ t.customer.keys, key ∈ customerFields := by
  simp only [parseTransaction, bind_eq_ok] at h
  obtain ⟨_, -, _, -, _, -, _, -, _, -, _, -, _, -, amount, hamount, _, -, customer, hcustomer, _, -,
    _, -, heq⟩ := h
  cases heq
  exact ⟨requireAmount_nonneg hamount, nestedObject_keys hcustomer⟩

/-! ## What an accepted request sent -/

theorem requireText_ok (h : requireText payload name = .ok text) :
    payload.get? name = some (.str text) ∧ text.length ≤ 128 := by
  unfold requireText at h
  split at h
  · rename_i hget
    split at h
    · cases h
    · split at h
      · cases h
      · rename_i hlength
        cases h
        exact ⟨hget, not_lt.mp hlength⟩
  · cases h

theorem optionalText_ok (h : optionalText payload name = .ok text) :
    payload.get? name = some (.str text) ∨ payload.get? name = none ∧ text = "" := by
  unfold optionalText at h
  split at h
  · exact .inl (requireText_ok h).1
  · rename_i habsent
    cases h
    rw [Dict.contains, Bool.not_eq_true, Option.isSome_eq_false_iff, Option.isNone_iff_eq_none]
      at habsent
    exact .inr ⟨habsent, rfl⟩

theorem requireAmount_ok (h : requireAmount payload = .ok amount) :
    payload.get? "amount_minor" = some (.int amount) := by
  unfold requireAmount at h
  split at h
  · rename_i hget
    split at h
    · cases h
    · cases h
      exact hget
  · cases h

theorem requireCurrency_ok {py : Python} (h : requireCurrency py currency = .ok ()) :
    currency.length = 3 ∧ py.isalpha currency = true := by
  unfold requireCurrency at h
  split at h
  · cases h
  · rename_i hcurrency
    rw [not_or, not_not, Bool.not_eq_false] at hcurrency
    exact hcurrency

/-- A nested object is the one the request sent, or empty. -/
theorem nestedObject_ok (h : nestedObject payload name allowed = .ok object) :
    (∃ entries, payload.get? name = some (.dict entries) ∧ object = .ofList entries) ∨
      payload.get? name = none ∧ object = ∅ := by
  unfold nestedObject at h
  split at h
  · rename_i entries hentries
    obtain ⟨_, -, hobject⟩ := bind_eq_ok.mp h
    cases hobject
    cases hget : payload.get? name with
    | some value =>
      rw [hget] at hentries
      exact .inl ⟨entries, congrArg some hentries, rfl⟩
    | none =>
      rw [hget] at hentries
      cases hentries
      exact .inr ⟨rfl, rfl⟩
  · cases h

/-- Where the fields of a transaction stand in the request it was made of. -/
structure Transaction.SentIn (py : Python) (payload : Dict String Value) (t : Transaction) :
    Prop where
  known : ∀ name ∈ payload.keys, name ∈ topLevelFields
  transactionRef : payload.get? "transaction_ref" = some (.str t.transactionRef)
  transactionRefLength : t.transactionRef.length ≤ 128
  customerRef : payload.get? "customer_ref" = some (.str t.customerRef)
  amountMinor : payload.get? "amount_minor" = some (.int t.amountMinor)
  nonneg : 0 ≤ t.amountMinor
  currency : ∃ c, payload.get? "currency" = some (.str c) ∧ c.length = 3 ∧ py.isalpha c = true ∧
    t.currency = py.upper c
  transactionType : payload.get? "transaction_type" = some (.str t.transactionType) ∨
    payload.get? "transaction_type" = none ∧ t.transactionType = ""
  channel : payload.get? "channel" = some (.str t.channel) ∨
    payload.get? "channel" = none ∧ t.channel = ""
  customer : (∃ entries, payload.get? "customer" = some (.dict entries) ∧
    t.customer = .ofList entries) ∨ payload.get? "customer" = none ∧ t.customer = ∅
  destination : (∃ entries, payload.get? "destination" = some (.dict entries) ∧
    t.destination = .ofList entries) ∨ payload.get? "destination" = none ∧ t.destination = ∅
  device : (∃ entries, payload.get? "device" = some (.dict entries) ∧
    t.device = .ofList entries) ∨ payload.get? "device" = none ∧ t.device = ∅

theorem sentIn_of_parseTransaction {py : Python} {t : Transaction}
    (h : parseTransaction py payload = .ok t) : t.SentIn py payload := by
  simp only [parseTransaction, bind_eq_ok] at h
  obtain ⟨_, hknown, _, -, ref, href, customerRef, hcustomerRef, currency, hcurrency, kind, hkind,
    channel, hchannel, amount, hamount, _, halpha, customer, hcustomer, destination, hdestination,
    device, hdevice, heq⟩ := h
  cases heq
  obtain ⟨hlength, halpha⟩ := requireCurrency_ok halpha
  exact {
    known := rejectUnknown_ok hknown
    transactionRef := (requireText_ok href).1
    transactionRefLength := (requireText_ok href).2
    customerRef := (requireText_ok hcustomerRef).1
    amountMinor := requireAmount_ok hamount
    nonneg := requireAmount_nonneg hamount
    currency := ⟨currency, (requireText_ok hcurrency).1, hlength, halpha, rfl⟩
    transactionType := optionalText_ok hkind
    channel := optionalText_ok hchannel
    customer := nestedObject_ok hcustomer
    destination := nestedObject_ok hdestination
    device := nestedObject_ok hdevice }

end ComplyLayer
