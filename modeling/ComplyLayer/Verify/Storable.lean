import ComplyLayer.Api.Columns
import ComplyLayer.Verify.Sources

/-!
# What validation accepts and what the table takes

Validation bounds the texts as the columns do. It does not bound the amount above, upper-cases the
currency after its length was checked, and lets a NUL through: the table takes a transaction exactly
when the request is none of these (`accepted_fits_iff`).
-/

namespace ComplyLayer

open Theory Column

/-- What validation leaves open: the amount is a `bigint`, upper-casing keeps the length of the
currency, and no string or key of the request has a NUL. -/
structure WithinColumns (py : Python) (payload : Dict String Value) : Prop where
  amountMinor : ∀ n, payload.get? "amount_minor" = some (.int n) → n < 2 ^ 63
  currency : ∀ c, payload.get? "currency" = some (.str c) → (py.upper c).length = c.length
  noNul : ∀ u ∈ (Value.dict payload.entries).parts, NoNul u

/-- What the code relies on of `isalpha` and `upper`: NUL is no letter and the upper case of
nothing, and no text gets shorter. -/
structure Python.Cases (py : Python) : Prop where
  text_of_isalpha : py.isalpha s = true → text s
  text_upper : text s → text (py.upper s)
  length_le_upper : s.length ≤ (py.upper s).length

/-! ## The texts of the request -/

section
variable {py : Python} {payload : Dict String Value} {t : Transaction}

theorem jsonb_asContext_iff : jsonb (.dict t.asContext.entries) ↔
    (text t.transactionRef ∧ text t.customerRef ∧ text t.currency ∧ text t.transactionType ∧
      text t.channel) ∧ jsonb (.dict t.customer.entries) ∧ jsonb (.dict t.destination.entries) ∧
      jsonb (.dict t.device.entries) := by
  have hkeys : topLevelFields.Nodup := by decide
  have hentries : t.asContext.entries =
      [("transaction_ref", .str t.transactionRef), ("customer_ref", .str t.customerRef),
        ("amount_minor", .int t.amountMinor), ("currency", .str t.currency),
        ("transaction_type", .str t.transactionType), ("channel", .str t.channel),
        ("customer", .dict t.customer.entries), ("destination", .dict t.destination.entries),
        ("device", .dict t.device.entries)] := Dict.entries_ofList hkeys
  rw [jsonb_dict_iff, hentries]
  simp only [List.forall_mem_cons, jsonb_str, jsonb_int, List.not_mem_nil, false_implies,
    implies_true, and_true]
  constructor
  · rintro ⟨⟨-, href⟩, ⟨-, hcustomerRef⟩, -, ⟨-, hcurrency⟩, ⟨-, htype⟩, ⟨-, hchannel⟩,
      ⟨-, hcustomer⟩, ⟨-, hdestination⟩, -, hdevice⟩
    exact ⟨⟨href, hcustomerRef, hcurrency, htype, hchannel⟩, hcustomer, hdestination, hdevice⟩
  · rintro ⟨⟨href, hcustomerRef, hcurrency, htype, hchannel⟩, hcustomer, hdestination, hdevice⟩
    exact ⟨⟨by decide, href⟩, ⟨by decide, hcustomerRef⟩, by decide, ⟨by decide, hcurrency⟩,
      ⟨by decide, htype⟩, ⟨by decide, hchannel⟩, ⟨by decide, hcustomer⟩,
      ⟨by decide, hdestination⟩, by decide, hdevice⟩

/-- The object of the request is the one of the transaction. -/
theorem entries_of_sent (hjson : (Value.dict payload.entries).IsJson)
    (hget : payload.get? name = some (.dict entries)) : (Dict.ofList entries).entries = entries := by
  have hmem : (name, .dict entries) ∈ payload.entries := (Dict.get?_eq_some_iff payload).mp hget
  have hchild : (Value.dict entries).IsJson := hjson.child (List.mem_map_of_mem hmem)
  exact Dict.entries_ofList (Value.forall_parts_iff.mp hchild.distinct).1

/-- A nested object is taken when what the request sent for it is. -/
theorem jsonb_nested_iff {object : Dict String Value}
    (hjson : (Value.dict payload.entries).IsJson)
    (hsent : (∃ entries, payload.get? name = some (.dict entries) ∧ object = .ofList entries) ∨
      payload.get? name = none ∧ object = ∅) :
    jsonb (.dict object.entries) ↔ ∀ v, payload.get? name = some v → jsonb v := by
  rcases hsent with ⟨entries, hget, rfl⟩ | ⟨hnone, rfl⟩
  · rw [entries_of_sent hjson hget, hget]
    exact ⟨fun h v hv => Option.some.inj hv ▸ h, fun h => h _ rfl⟩
  · rw [hnone]
    exact iff_of_true (by decide) fun _ h => by cases h

theorem text_optional_iff
    (hsent : payload.get? name = some (.str s) ∨ payload.get? name = none ∧ s = "") :
    text s ↔ ∀ v, payload.get? name = some v → jsonb v := by
  rcases hsent with hget | ⟨hnone, rfl⟩
  · rw [hget]
    exact ⟨fun h v hv => Option.some.inj hv ▸ jsonb_str.mpr h, fun h => jsonb_str.mp (h _ rfl)⟩
  · rw [hnone]
    exact iff_of_true (by decide) fun _ h => by cases h

/-- The documents of a transaction have no NUL exactly when the request has none. -/
theorem jsonb_asContext_iff_payload (hcases : py.Cases)
    (hjson : (Value.dict payload.entries).IsJson) (hsent : t.SentIn py payload) :
    jsonb (.dict t.asContext.entries) ↔
      ∀ u ∈ (Value.dict payload.entries).parts, NoNul u := by
  have hpayload : (∀ u ∈ (Value.dict payload.entries).parts, NoNul u) ↔
      ∀ k ∈ topLevelFields, ∀ v, payload.get? k = some v → jsonb v := by
    have hnames : ∀ name ∈ topLevelFields, text name := by decide
    refine (and_iff_right hjson.native).symm.trans ?_
    refine jsonb_dict_iff.trans ⟨fun h k _ v hv => ?_, fun h entry hentry => ?_⟩
    · exact (h _ ((Dict.get?_eq_some_iff payload).mp hv)).2
    · have hknown := hsent.known _ (List.mem_map_of_mem hentry)
      exact ⟨hnames _ hknown, h _ hknown _ ((Dict.get?_eq_some_iff payload).mpr hentry)⟩
  obtain ⟨c, hc, -, halpha, hupper⟩ := hsent.currency
  have hcurrency : text t.currency := hupper ▸ hcases.text_upper (hcases.text_of_isalpha halpha)
  rw [hpayload, jsonb_asContext_iff, text_optional_iff (.inl hsent.transactionRef),
    text_optional_iff (.inl hsent.customerRef), text_optional_iff hsent.transactionType,
    text_optional_iff hsent.channel, jsonb_nested_iff hjson hsent.customer,
    jsonb_nested_iff hjson hsent.destination, jsonb_nested_iff hjson hsent.device]
  simp only [topLevelFields, List.forall_mem_cons, List.not_mem_nil, false_implies, implies_true,
    and_true]
  have hamount : ∀ v, payload.get? "amount_minor" = some v → jsonb v := by
    rw [hsent.amountMinor]
    exact fun v hv => Option.some.inj hv ▸ jsonb_int _
  have hcurrencySent : ∀ v, payload.get? "currency" = some v → jsonb v := by
    rw [hc]
    exact fun v hv => Option.some.inj hv ▸ jsonb_str.mpr (hcases.text_of_isalpha halpha)
  constructor
  · rintro ⟨⟨href, hcustomerRef, -, htype, hchannel⟩, hcustomer, hdestination, hdevice⟩
    exact ⟨href, hcustomerRef, hamount, hcurrencySent, htype, hchannel, hcustomer, hdestination,
      hdevice⟩
  · rintro ⟨href, hcustomerRef, -, -, htype, hchannel, hcustomer, hdestination, hdevice⟩
    exact ⟨⟨href, hcustomerRef, hcurrency, htype, hchannel⟩, hcustomer, hdestination, hdevice⟩

theorem fits_iff (hcases : py.Cases) (hjson : (Value.dict payload.entries).IsJson)
    (hsent : t.SentIn py payload) : t.Fits ↔ WithinColumns py payload := by
  obtain ⟨c, hc, hlength, -, hupper⟩ := hsent.currency
  constructor
  · intro h
    refine ⟨fun n hn => ?_, fun c' hc' => ?_, ?_⟩
    · cases hsent.amountMinor.symm.trans hn
      exact h.amountMinor.2
    · cases hc.symm.trans hc'
      rw [← hupper, h.currency, hlength]
    · exact (jsonb_asContext_iff_payload hcases hjson hsent).mp h.context
  · intro h
    refine ⟨⟨?_, h.amountMinor _ hsent.amountMinor⟩, ?_, hsent.transactionRefLength, ?_⟩
    · exact le_trans (by decide) hsent.nonneg
    · rw [hupper, h.currency c hc, hlength]
    · exact (jsonb_asContext_iff_payload hcases hjson hsent).mpr h.noNul

/-! ## The row of a decision -/

/-- What the transaction gives has no NUL where its documents have none. -/
theorem jsonb_sourceFacts (hparse : parseTransaction py payload = .ok t)
    (h : jsonb (.dict t.asContext.entries)) (velocity : Gathered) :
    ∀ entry ∈ sourceFacts t velocity, text entry.1 ∧ jsonb entry.2 := by
  obtain ⟨⟨-, -, hcurrency, htype, hchannel⟩, hcustomer, hdestination, hdevice⟩ :=
    jsonb_asContext_iff.mp h
  have hnames : ∀ name ∈ factNames, text name := by decide
  intro entry hentry
  refine ⟨hnames _ ((names_sourceFacts hparse velocity).2 (List.mem_map_of_mem hentry)), ?_⟩
  have hall : ∀ entry ∈ sourceFacts t velocity, jsonb entry.2 := by
    simp only [sourceFacts, List.forall_mem_append, List.forall_mem_map, List.forall_mem_cons]
    refine ⟨⟨⟨⟨⟨jsonb_int _, jsonb_str.mpr hcurrency, jsonb_str.mpr htype, jsonb_str.mpr hchannel,
      fun _ h => absurd h List.not_mem_nil⟩, ?_⟩, ?_⟩, ?_⟩, ?_⟩
    · exact fun entry he => (jsonb_dict_iff.mp hcustomer entry he).2
    · exact fun entry he => (jsonb_dict_iff.mp hdestination entry he).2
    · exact fun entry he => (jsonb_dict_iff.mp hdevice entry he).2
    · cases velocity with
      | window w =>
        simp only [Gathered.aggregateFacts, Aggregates.asFacts, List.forall_mem_cons]
        exact ⟨jsonb_int _, jsonb_int _, jsonb_int _, jsonb_int _, jsonb_int _, jsonb_int _,
          fun _ h => absurd h List.not_mem_nil⟩
      | unavailable cause => exact fun _ h => absurd h List.not_mem_nil
  exact hall entry hentry

/-- The facts that are stored have no NUL where the documents of the transaction and the lists have
none. -/
theorem jsonb_serialisable (hparse : parseTransaction py payload = .ok t)
    (h : jsonb (.dict t.asContext.entries)) (velocity : Gathered)
    {lists : Dict String (List Value)}
    (hlists : ∀ entry ∈ lists.entries, text entry.1 ∧ jsonb (.list entry.2)) :
    jsonb (.dict (serialisable (buildFacts t velocity lists))) := by
  refine jsonb_dict_iff.mpr fun entry hentry => ?_
  obtain ⟨⟨name, v⟩, hfact, rfl⟩ := List.mem_map.mp hentry
  have hget := (Dict.get?_eq_some_iff _).mpr hfact
  rw [get?_buildFacts hparse] at hget
  cases hlist : lists.get? name with
  | some values =>
    rw [hlist] at hget
    cases hget
    exact hlists _ ((Dict.get?_eq_some_iff lists).mp hlist)
  | none =>
    rw [hlist] at hget
    obtain ⟨hname, hv⟩ := jsonb_sourceFacts hparse h velocity _ (Dict.mem_of_find_eq_some hget)
    cases v with
    | tuple xs => cases hv.1
    | _ => exact ⟨hname, hv⟩

end

/-- The transaction of an accepted request fits the table exactly when the request is what
validation leaves open, and so does the row of its decision when the other columns take theirs. -/
theorem accepted_fits_iff {py : Python} (hcases : py.Cases)
    (hjson : (Value.dict payload.entries).IsJson) (hparse : parseTransaction py payload = .ok t) :
    (t.Fits ↔ WithinColumns py payload) ∧
    ∀ args row record velocity lists, args.transaction = t →
      DatabaseStore.rowsOf py args = some (row, record) →
      row.resolvedFacts = .dict (serialisable (buildFacts t velocity lists)) →
      (∀ entry ∈ lists.entries, text entry.1 ∧ jsonb (.list entry.2)) → row.RestFits →
        (row.Fits ↔ WithinColumns py payload) := by
  have hsent := sentIn_of_parseTransaction hparse
  refine ⟨fits_iff hcases hjson hsent, ?_⟩
  intro args row record velocity lists htransaction hrows hresolved hlists hrest
  obtain ⟨href, hamount, hcurrency, hcontext⟩ := DatabaseStore.rowsOf_transaction hrows
  subst htransaction
  rw [← fits_iff hcases hjson hsent]
  constructor
  · intro h
    refine ⟨hamount ▸ h.amountMinor, ?_, hsent.transactionRefLength, hcontext ▸ h.context⟩
    obtain ⟨c, -, hlength, -, hupper⟩ := hsent.currency
    have hle : args.transaction.currency.length ≤ 3 := hcurrency ▸ h.currency.1
    have hge : c.length ≤ (py.upper c).length := hcases.length_le_upper
    rw [← hupper, hlength] at hge
    exact le_antisymm hle hge
  · intro h
    obtain ⟨⟨htext, -, hcurrencyText, -⟩, -⟩ := jsonb_asContext_iff.mp h.context
    exact {
      toRestFits := hrest
      transactionRef := href ▸ ⟨h.transactionRef, htext⟩
      amountMinor := hamount ▸ h.amountMinor
      currency := hcurrency ▸ ⟨h.currency.le, hcurrencyText⟩
      context := hcontext ▸ h.context
      resolvedFacts := hresolved ▸ jsonb_serialisable hparse h.context velocity hlists }

/-! ## Requests the table refuses -/

/-- A runtime with one letter that is two in upper case. -/
def eszettPython : Python :=
  { asciiPython with
    isalpha := fun s => !s.isEmpty && s.toList.all fun c => c.isAlpha || c == 'ß'
    upper := fun s => String.ofList (s.toList.flatMap fun c => if c = 'ß' then ['S', 'S'] else [c]) }

theorem eszettPython_cases : eszettPython.Cases where
  text_of_isalpha {s} h hnul := by
    have hall : ∀ c ∈ s.toList, (c.isAlpha || c == 'ß') = true :=
      List.all_eq_true.mp (Bool.and_eq_true_iff.mp h).2
    exact absurd (hall nul hnul) (by decide)
  text_upper {s} h hnul := by
    have hupper : nul ∈ s.toList.flatMap fun c => if c = 'ß' then ['S', 'S'] else [c] := by
      rwa [← String.toList_ofList (l := s.toList.flatMap _)]
    obtain ⟨c, hc, hmem⟩ := List.mem_flatMap.mp hupper
    split at hmem
    · exact absurd hmem (by decide)
    · cases List.mem_singleton.mp hmem
      exact h hc
  length_le_upper {s} := by
    have hlength : ∀ l : List Char,
        l.length ≤ (l.flatMap fun c => if c = 'ß' then ['S', 'S'] else [c]).length := by
      intro l
      induction l with
      | nil => exact le_rfl
      | cons c l ih =>
        rw [List.flatMap_cons, List.length_append, List.length_cons, Nat.add_comm]
        refine Nat.add_le_add ?_ ih
        split
        · exact Nat.le_add_left 1 1
        · exact le_rfl
    rw [← String.length_toList, ← String.length_toList (s := eszettPython.upper s)]
    exact le_of_le_of_eq (hlength s.toList) (congrArg List.length String.toList_ofList.symm)

/-- A request with this reference, amount and currency. -/
def requestOf (ref : String) (amount : Int) (currency : String) : Dict String Value :=
  .ofList [("transaction_ref", .str ref), ("customer_ref", .str "c_1"),
    ("amount_minor", .int amount), ("currency", .str currency)]

theorem accepted_fits_iff_plain : ∃ t,
    parseTransaction eszettPython (requestOf "tx_1" 5000 "NGN") = .ok t ∧ t.Fits := by
  have hparse : ∃ t, parseTransaction eszettPython (requestOf "tx_1" 5000 "NGN") = .ok t :=
    ⟨_, rfl⟩
  obtain ⟨t, hparse⟩ := hparse
  refine ⟨t, hparse, (accepted_fits_iff eszettPython_cases ⟨rfl, by decide⟩ hparse).1.mpr ?_⟩
  refine ⟨fun n hn => ?_, fun c hc => ?_, by decide⟩
  · cases hn
    decide
  · cases hc
    decide

/-- An amount of `2 ^ 63`, a currency that upper-casing makes four letters of, and a reference with
a NUL. -/
theorem accepted_not_stored :
    (∃ t, parseTransaction eszettPython (requestOf "tx_1" (2 ^ 63) "NGN") = .ok t ∧
      ¬ bigint t.amountMinor) ∧
    (∃ t, parseTransaction eszettPython (requestOf "tx_1" 5000 "ßNG") = .ok t ∧
      ¬ varchar 3 t.currency) ∧
    ∃ t, parseTransaction eszettPython (requestOf "tx\x001" 5000 "NGN") = .ok t ∧
      ¬ varchar 128 t.transactionRef :=
  ⟨⟨_, rfl, fun h => absurd h.2 (by decide)⟩, ⟨_, rfl, fun h => absurd h.1 (by decide)⟩,
    _, rfl, fun h => absurd h.2 (by decide)⟩

end ComplyLayer
