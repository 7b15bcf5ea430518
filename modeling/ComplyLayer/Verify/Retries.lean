import ComplyLayer.Verify.History

/-!
# A retried transaction

The members and the amounts are keyed by the reference, so a window has one entry for each however
often it was recorded. The counters are increased by every call, so they count each reference once
exactly when no reference is recorded twice.
-/

namespace ComplyLayer

open Theory Redis

/-- One entry for each reference of the calls: none twice, none of another, each as its last call
has it, and where no member ran out or was cut, none missing. -/
structure OnePerReference (window : Window) (calls : List RecordCall) : Prop where
  nodup : (window.entries.map WindowEntry.member).Nodup
  latest : ∀ entry ∈ window.entries, ∃ c, (latest calls).get? entry.member = some c ∧
    entry.score = c.moment ∧ entry.amount = c.amount ∧ entry.kind = c.recorded.transactionType
  complete : Close calls → window.truncated = false →
    ∀ c ∈ calls, c.ref ∈ window.entries.map WindowEntry.member

/-- The counters are those of the distinct references. A reference counts with the amount of its
last call, which retries of one transaction share. -/
structure CountsReferences (aggregates : Aggregates) (calls : List RecordCall) : Prop where
  count : aggregates.lifetimeCount = (latest calls).entries.length
  volume : aggregates.lifetimeVolumeMinor = ((latest calls).values.map RecordCall.amount).sum

/-- Retries count once: in every window read, and in the counters left. -/
structure RetriesCountOnce (py : Python) (velocity : RedisVelocity) (server : Server)
    (calls : List RecordCall) : Prop where
  windows : ∀ before c after window, calls = before ++ c :: after →
    (recordAll py velocity server calls).2[before.length]? = some (.ok window) →
    OnePerReference window (before ++ [c])
  counters : ∃ fields, (recordAll py velocity server calls).1.hash? velocity.aggregatesKey =
    some fields ∧ CountsReferences (parseAggregates py fields) calls

section
variable {py : Python} {velocity : RedisVelocity} {server : Server} {calls : List RecordCall}

theorem Returns.onePerReference {window : Window} (h : Returns py done c (.ok window))
    (hcomplete : Close (done ++ [c]) → Complete done c (.ok window)) :
    OnePerReference window (done ++ [c]) := by
  have htake : RedisVelocity.CountersTake (aggregatesAfter py done) c.recorded := by
    by_contra htake
    obtain ⟨message, herror⟩ := h.failed htake
    cases herror
  obtain ⟨scores, amounts, hlatest, hwindow⟩ := h.window htake
  cases hwindow
  let read := rangeFrom scores (c.moment - largestWindowSeconds)
  have hread : read.Perm (scores.entries.filter fun entry =>
      c.moment - largestWindowSeconds ≤ entry.2) := perm_sortBy _ _
  refine ⟨?_, fun entry hentry => ?_, fun hclose hwhole => hcomplete hclose _ rfl hwhole⟩
  · have hkeys : (read.map Prod.fst).Nodup :=
      (hread.map Prod.fst).nodup_iff.mpr (scores.nodup.sublist (List.filter_sublist.map _))
    rw [members_windowOf]
    exact hkeys.sublist ((List.drop_sublist _ _).map _)
  · rw [windowOf_entries] at hentry
    obtain ⟨⟨ref, score⟩, hin, rfl⟩ := List.mem_map.mp hentry
    have hscore := (List.mem_filter.mp (hread.mem_iff.mp (List.mem_of_mem_drop hin))).1
    obtain ⟨b, hb, hmoment, htext⟩ :=
      hlatest ref score ((Dict.get?_eq_some_iff _).mpr hscore)
    have hsplit : splitAmount (amounts.get? ref) = (b.amount, b.recorded.transactionType) := by
      rw [htext]
      exact splitAmount_amountText _ _
    exact ⟨b, hb, hmoment, congrArg Prod.fst hsplit, congrArg Prod.snd hsplit⟩

theorem mem_keys_latest (calls : List RecordCall) :
    ref ∈ (latest calls).keys ↔ ref ∈ calls.map RecordCall.ref := by
  induction calls using List.reverseRecOn with
  | nil => exact Iff.rfl
  | append_singleton calls c ih =>
    rw [latest_concat, Dict.mem_keys_set, ih, List.map_append, List.mem_append, or_comm,
      List.map_singleton, List.mem_singleton]

theorem length_latest_concat (calls : List RecordCall) (c : RecordCall) :
    (latest (calls ++ [c])).entries.length =
      (latest calls).entries.length + if c.ref ∈ calls.map RecordCall.ref then 0 else 1 := by
  rw [latest_concat, Dict.length_entries_set]
  simp only [mem_keys_latest]

theorem length_latest_le (calls : List RecordCall) :
    (latest calls).entries.length ≤ calls.length := by
  induction calls using List.reverseRecOn with
  | nil => exact le_refl 0
  | append_singleton calls c ih =>
    rw [length_latest_concat, List.length_append, List.length_singleton]
    split <;> omega

/-- As many references as calls: none is recorded twice. -/
theorem length_latest_eq_iff (calls : List RecordCall) :
    (latest calls).entries.length = calls.length ↔ (calls.map RecordCall.ref).Nodup := by
  induction calls using List.reverseRecOn with
  | nil => exact iff_of_true rfl List.nodup_nil
  | append_singleton calls c ih =>
    have hle := length_latest_le calls
    rw [length_latest_concat, List.length_append, List.length_singleton, List.map_append,
      List.map_singleton, ← List.concat_eq_append, List.nodup_concat, ← ih]
    split
    · rename_i hmem
      exact iff_of_false (by omega) fun h => h.1 hmem
    · rename_i hnew
      exact ⟨fun h => ⟨hnew, by omega⟩, fun h => by omega⟩

theorem latest_of_nodup (h : (calls.map RecordCall.ref).Nodup) :
    (latest calls).values = calls := by
  have hkeys : ((calls.map fun c => (c.ref, c)).map Prod.fst).Nodup := by
    rw [List.map_map]
    exact h
  rw [latest, Dict.values, Dict.entries_ofList hkeys, List.map_map]
  exact List.map_id _

theorem lifetimeCount_eq (py : Python) (h : calls.length < 2 ^ 63) :
    (parseAggregates py (aggregatesAfter py calls)).lifetimeCount = calls.length :=
  (number_of_counter? (counter?_lifetimeCount py calls)).trans (counted_calls h)

/-- **A retried transaction is counted again.** Whatever is recorded again, every window has one
entry for each reference. With fewer calls than a counter can count, the counters are those of the
distinct references exactly when no reference is recorded twice and the sum of the amounts fits
one. -/
theorem retries_count_once_iff (py : Python) (hnew : NoHistory velocity server)
    (helapsed : ∀ c ∈ calls, 0 ≤ c.elapsed) (hamounts : ∀ c ∈ calls, 0 ≤ c.amount)
    (hlength : calls.length < 2 ^ 63) :
    RetriesCountOnce py velocity server calls ↔
      (calls.map RecordCall.ref).Nodup ∧ (calls.map RecordCall.amount).sum < 2 ^ 63 := by
  obtain ⟨hlast, hresults⟩ := recordAll_remembers (hnew.remembers py) hnew.renewed
    (fun _ _ _ b hb => by cases hb) helapsed
  rw [List.nil_append] at hlast
  have hvolume := number_of_counter? (counter?_lifetimeVolume py calls)
  constructor
  · intro h
    obtain ⟨fields, hfields, hcount, hsum⟩ := h.counters
    cases hlast.aggregates.symm.trans hfields
    rw [lifetimeCount_eq py hlength] at hcount
    have hrefs := (length_latest_eq_iff calls).mp (by exact_mod_cast hcount.symm)
    rw [latest_of_nodup hrefs] at hsum
    have hfits : Fits (counted 0 (calls.map RecordCall.amount)) := fits_counted (by decide) _
    refine ⟨hrefs, ?_⟩
    rw [← hsum]
    exact lt_of_eq_of_lt hvolume hfits.2
  · rintro ⟨hrefs, hsum⟩
    refine ⟨fun before c after window heq hget => ?_, _, hlast.aggregates, ?_, ?_⟩
    · obtain ⟨result, hresult, hreturns, hcomplete⟩ := hresults before c after heq
      cases hresult.symm.trans hget
      exact hreturns.onePerReference hcomplete
    · rw [lifetimeCount_eq py hlength, (length_latest_eq_iff calls).mpr hrefs]
    · rw [latest_of_nodup hrefs]
      refine hvolume.trans ?_
      rw [counted_eq_sum (le_refl 0), zero_add]
      · intro i hi
        obtain ⟨c, hc, rfl⟩ := List.mem_map.mp hi
        exact hamounts c hc
      · rw [zero_add]
        exact hsum

end

/-! Two transactions, and the first of them again ten seconds later. -/

def firstCall : RecordCall := { moment := 1000, recorded := ⟨"tx_1", 700, "transfer"⟩ }

def otherCall : RecordCall :=
  { elapsed := 5, moment := 1005, recorded := ⟨"tx_2", 300, "transfer"⟩ }

def retriedCall : RecordCall := { firstCall with elapsed := 5, moment := 1010 }

theorem retries_count_once_distinct :
    RetriesCountOnce clockPython sampleVelocity {} [firstCall, otherCall] := by
  have helapsed : ∀ c ∈ [firstCall, otherCall], 0 ≤ c.elapsed := by decide
  have hamounts : ∀ c ∈ [firstCall, otherCall], 0 ≤ c.amount := by decide
  exact (retries_count_once_iff clockPython (noHistory_empty _) helapsed hamounts (by decide)).mpr
    ⟨by decide, by decide⟩

theorem retry_counted_again :
    ¬ RetriesCountOnce clockPython sampleVelocity {} [firstCall, otherCall, retriedCall] ∧
    (latest [firstCall, otherCall, retriedCall]).entries.length = 2 ∧
    (recordAll clockPython sampleVelocity {} [firstCall, otherCall, retriedCall]).1.hash?
      sampleVelocity.aggregatesKey =
        some (aggregatesAfter clockPython [firstCall, otherCall, retriedCall]) ∧
    (parseAggregates clockPython
      (aggregatesAfter clockPython [firstCall, otherCall, retriedCall])).lifetimeCount = 3 := by
  have hnew := noHistory_empty sampleVelocity
  have helapsed : ∀ c ∈ [firstCall, otherCall, retriedCall], 0 ≤ c.elapsed := by decide
  obtain ⟨hlast, -⟩ := recordAll_remembers (hnew.remembers clockPython) hnew.renewed
    (fun _ _ _ b hb => by cases hb) helapsed
  have hlength : [firstCall, otherCall, retriedCall].length < 2 ^ 63 := by decide
  have hcount := lifetimeCount_eq clockPython hlength
  refine ⟨fun h => ?_, rfl, hlast.aggregates, hcount⟩
  obtain ⟨fields, hfields, hreferences, -⟩ := h.counters
  cases hlast.aggregates.symm.trans hfields
  cases hcount.symm.trans hreferences

end ComplyLayer
