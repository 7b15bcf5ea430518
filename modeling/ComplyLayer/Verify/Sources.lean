import ComplyLayer.Api.Management
import ComplyLayer.Api.Worker
import ComplyLayer.Audit.Documents

/-!
# Where a rule's names come from

The transaction and the aggregates give names that no two of them share. The named lists are merged
over them under names of their tenant's choice, so each name keeps what its source gave exactly
when no list has it (`facts_stand_iff`).
-/

namespace ComplyLayer

open Theory

/-- What the transaction and the aggregates give, each under its name. -/
def sourceFacts (transaction : Transaction) (velocity : Gathered) : List (String × Value) :=
  [("amount_minor", .int transaction.amountMinor),
    ("currency", .str transaction.currency),
    ("transaction_type", .str transaction.transactionType),
    ("channel", .str transaction.channel)] ++
  transaction.customer.entries ++
  transaction.destination.entries.map (fun (k, v) => ("destination_" ++ k, v)) ++
  transaction.device.entries.map (fun (k, v) => ("device_" ++ k, v)) ++
  velocity.aggregateFacts

/-- The names of the transaction itself. -/
def baseNames : List String := ["amount_minor", "currency", "transaction_type", "channel"]

/-- Every name the transaction and the aggregates can give. -/
def factNames : List String :=
  baseNames ++ customerFields ++ destinationFields.map ("destination_" ++ ·) ++
    deviceFields.map ("device_" ++ ·) ++ aggregateNames

theorem buildFacts_eq (transaction : Transaction) (velocity : Gathered)
    (lists : Dict String (List Value)) : buildFacts transaction velocity lists =
      (Dict.ofList (sourceFacts transaction velocity)).update (lists.map Value.tuple).entries := by
  rw [Dict.ofList, sourceFacts, Dict.update, Dict.update, List.foldl_append, List.foldl_append,
    List.foldl_append, List.foldl_append]
  rfl

/-! ## No two sources share a name -/

/-- Two lists of names taken from lists that share none. -/
theorem nodup_append_of_subset {l l' m m' : List String} (h : l.Nodup ∧ l ⊆ m) (hl' : l'.Nodup)
    (hm' : l' ⊆ m') (hmm : (m ++ m').Nodup) : (l ++ l').Nodup ∧ l ++ l' ⊆ m ++ m' := by
  obtain ⟨hl, hm⟩ := h
  constructor
  · refine List.nodup_append.mpr ⟨hl, hl', fun a ha b hb => ?_⟩
    exact (List.nodup_append.mp hmm).2.2 a (hm ha) b (hm' hb)
  · exact List.append_subset.mpr ⟨fun a ha => List.mem_append_left _ (hm ha),
      fun a ha => List.mem_append_right _ (hm' ha)⟩

theorem map_fst_prefixed (pre : String) (d : Dict String Value) :
    (d.entries.map fun (k, v) => (pre ++ k, v)).map Prod.fst = d.keys.map (pre ++ ·) := by
  rw [Dict.keys, List.map_map, List.map_map]
  rfl

theorem nodup_prefixed (pre : String) (d : Dict String Value) :
    (d.keys.map (pre ++ ·)).Nodup :=
  d.nodup.map fun _ _ h => (String.append_right_inj pre).mp h

section
variable {py : Python} {payload : Dict String Value} {transaction : Transaction}

theorem names_sourceFacts (hparse : parseTransaction py payload = .ok transaction)
    (velocity : Gathered) : ((sourceFacts transaction velocity).map Prod.fst).Nodup ∧
      (sourceFacts transaction velocity).map Prod.fst ⊆ factNames := by
  obtain ⟨hcustomer, hdestination, hdevice⟩ := parseTransaction_nested hparse
  have haggregates : velocity.aggregateFacts.map Prod.fst ⊆ aggregateNames := by
    cases velocity with
    | window w => exact List.Subset.refl _
    | unavailable cause => exact List.nil_subset _
  have hbase : baseNames.Nodup ∧ baseNames ⊆ baseNames := ⟨by decide, List.Subset.refl _⟩
  have hcustomers := nodup_append_of_subset hbase transaction.customer.nodup
    (nestedObject_keys hcustomer) (by decide)
  have hdestinations := nodup_append_of_subset hcustomers
    (nodup_prefixed "destination_" transaction.destination)
    (List.map_subset _ (nestedObject_keys hdestination)) (by decide)
  have hdevices := nodup_append_of_subset hdestinations
    (nodup_prefixed "device_" transaction.device)
    (List.map_subset _ (nestedObject_keys hdevice)) (by decide)
  have hall := nodup_append_of_subset hdevices velocity.nodup_aggregateFacts haggregates (by decide)
  simp only [sourceFacts, List.map_append, map_fst_prefixed]
  exact hall

theorem nodup_sourceFacts (hparse : parseTransaction py payload = .ok transaction)
    (velocity : Gathered) : ((sourceFacts transaction velocity).map Prod.fst).Nodup :=
  (names_sourceFacts hparse velocity).1

/-- A name resolves to the list of that name, and to what its source gave where there is none. -/
theorem get?_buildFacts (hparse : parseTransaction py payload = .ok transaction)
    (velocity : Gathered) (lists : Dict String (List Value)) (name : String) :
    (buildFacts transaction velocity lists).get? name =
      ((lists.get? name).map Value.tuple).or
        (Dict.find name (sourceFacts transaction velocity)) := by
  have hlists : Dict.find name (lists.map Value.tuple).entries =
      (lists.get? name).map Value.tuple := Dict.get?_map _ _ _
  rw [buildFacts_eq, Dict.get?_update_of_nodup (lists.map Value.tuple).nodup, hlists, Dict.ofList,
    Dict.get?_update_of_nodup (nodup_sourceFacts hparse velocity), Dict.get?_empty, Option.or_none]

/-! ## No source gives a tuple -/

theorem Value.ne_tuple_of_isNative {v : Value} (h : v.isNative = true) (xs : List Value) :
    v ≠ .tuple xs := by
  rintro rfl
  cases h

theorem isNative_of_nestedObject (hjson : (Value.dict payload.entries).isNative = true)
    (h : nestedObject payload name allowed = .ok object) (hmem : entry ∈ object.entries) :
    entry.2.isNative = true := by
  obtain ⟨entries, hget, hentry⟩ := mem_of_nestedObject h hmem
  have hobject := Value.isNativeEntries_iff.mp hjson _ ((Dict.get?_eq_some_iff payload).mp hget)
  exact Value.isNativeEntries_iff.mp hobject entry hentry

theorem isNative_aggregateFacts (velocity : Gathered) :
    ∀ entry ∈ velocity.aggregateFacts, entry.2.isNative = true := by
  cases velocity with
  | window w =>
    simp only [Gathered.aggregateFacts, Aggregates.asFacts, List.forall_mem_cons]
    exact ⟨rfl, rfl, rfl, rfl, rfl, rfl, fun _ h => absurd h List.not_mem_nil⟩
  | unavailable cause => exact fun _ h => absurd h List.not_mem_nil

theorem isNative_sourceFacts (hjson : (Value.dict payload.entries).isNative = true)
    (hparse : parseTransaction py payload = .ok transaction) (velocity : Gathered) :
    ∀ entry ∈ sourceFacts transaction velocity, entry.2.isNative = true := by
  obtain ⟨hcustomer, hdestination, hdevice⟩ := parseTransaction_nested hparse
  simp only [sourceFacts, List.forall_mem_append, List.forall_mem_map, List.forall_mem_cons]
  refine ⟨⟨⟨⟨⟨rfl, rfl, rfl, rfl, fun _ h => absurd h List.not_mem_nil⟩, ?_⟩, ?_⟩, ?_⟩, ?_⟩
  · exact fun entry => isNative_of_nestedObject hjson hcustomer
  · exact fun entry => isNative_of_nestedObject hjson hdestination
  · exact fun entry => isNative_of_nestedObject hjson hdevice
  · exact isNative_aggregateFacts velocity

end

/-- Every name resolves to what its source gave exactly when no list has the name of a fact. A
change of the lists changes no name but those whose list it changes. -/
theorem facts_stand_iff {py : Python} (hjson : (Value.dict payload.entries).isNative = true)
    (hparse : parseTransaction py payload = .ok transaction) (velocity : Gathered)
    (lists : Dict String (List Value)) :
    ((∀ entry ∈ sourceFacts transaction velocity,
        (buildFacts transaction velocity lists).get? entry.1 = some entry.2) ↔
      ∀ entry ∈ sourceFacts transaction velocity, entry.1 ∉ lists.keys) ∧
    ∀ lists' name, lists'.get? name = lists.get? name →
      (buildFacts transaction velocity lists').get? name =
        (buildFacts transaction velocity lists).get? name := by
  constructor
  · refine forall₂_congr fun entry hentry => ?_
    have hfind : Dict.find entry.1 (sourceFacts transaction velocity) = some entry.2 :=
      Dict.find_eq_some_of_mem (nodup_sourceFacts hparse velocity) hentry
    rw [get?_buildFacts hparse, hfind, Dict.mem_keys_iff]
    cases hlist : lists.get? entry.1 with
    | none => exact iff_of_true rfl fun ⟨_, h⟩ => by cases h
    | some values =>
      refine iff_of_false (fun h => ?_) fun h => h ⟨values, rfl⟩
      have hnative := isNative_sourceFacts hjson hparse velocity entry hentry
      exact Value.ne_tuple_of_isNative hnative values (Option.some.inj h).symm
  · intro lists' name h
    rw [get?_buildFacts hparse, get?_buildFacts hparse, h]

/-! ## A list called `amount_minor` -/

def asciiPython : Python := .reading "" (.constant .none)

/-- A transaction of fifty naira by a customer of tier two. -/
def tieredPayload : Dict String Value :=
  .ofList [("transaction_ref", .str "tx_1"), ("customer_ref", .str "c_1"),
    ("amount_minor", .int 5000), ("currency", .str "NGN"),
    ("customer", .dict [("kyc_tier", .int 2)])]

def tieredTransaction : Transaction :=
  { transactionRef := "tx_1", customerRef := "c_1", amountMinor := 5000, currency := "NGN",
    customer := .ofList [("kyc_tier", .int 2)] }

theorem parseTransaction_tiered :
    parseTransaction asciiPython tieredPayload = .ok tieredTransaction := rfl

def highRisk : Dict String (List Value) := .ofList [("high_risk", [.str "XX"])]

theorem facts_stand_iff_tiered :
    (buildFacts tieredTransaction (.unavailable "timeout") highRisk).get? "amount_minor" =
        some (.int 5000) ∧
      (buildFacts tieredTransaction (.unavailable "timeout") highRisk).get? "kyc_tier" =
        some (.int 2) := by
  have hstand := (facts_stand_iff rfl parseTransaction_tiered (.unavailable "timeout")
    highRisk).1.mpr (by decide)
  exact ⟨hstand ("amount_minor", .int 5000) List.mem_cons_self,
    hstand ("kyc_tier", .int 2) (.tail _ (.tail _ (.tail _ (.tail _ (.head _)))))⟩

/-- The management API takes a list called `amount_minor`, and every rule reads the list where the
amount was. -/
theorem amount_overwritten : ∃ db lists,
    ManagementDb.createList asciiPython {} ⟨"tnt_1", "key_1", "live", ⟨"usr_1", .engineer, ""⟩⟩ 1
      (.ofList [("name", .str "amount_minor"), ("values", .list [.str "XX"])]) = .ok db ∧
    tupleLists (db.namedLists "tnt_1") = .ok lists ∧
    ("amount_minor", .int 5000) ∈ sourceFacts tieredTransaction (.unavailable "timeout") ∧
    (buildFacts tieredTransaction (.unavailable "timeout") lists).get? "amount_minor" =
      some (.tuple [.str "XX"]) :=
  ⟨_, _, rfl, rfl, List.mem_cons_self, rfl⟩

end ComplyLayer
