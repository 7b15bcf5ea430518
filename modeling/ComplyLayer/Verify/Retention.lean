import ComplyLayer.Verify.History

/-!
# What the keys of a window keep

Calls of `gather`, `record` and `record_and_gather` of one customer, in any order. `Kept` is what
the calls make of the members and of the amounts, without a server: a call trims the members, a
recording writes both, and both are gone when they run out. The server holds just that
(`backed_serverAfter`), so what a call reads is a fact about `Kept.after` (`answer_eq_ok_iff`). Of
the recordings since the keys last ran out, the amounts have every reference, and the members those
that were not trimmed.
-/

namespace ComplyLayer

open Theory Redis

/-- A call of `gather`, or where there is a transaction of `record` or `record_and_gather`, with the
time on the server since the call before. -/
structure WindowCall where
  elapsed : ℚ := 0
  moment : ℚ
  record : Option Recorded := none

/-- The recording of the call. -/
def WindowCall.recording? (c : WindowCall) : Option RecordCall :=
  c.record.map fun t => ⟨c.elapsed, c.moment, t⟩

/-- Everything the calls record. -/
def recordings (calls : List WindowCall) : List RecordCall :=
  calls.filterMap WindowCall.recording?

section
variable (py : Python) (velocity : RedisVelocity) (server : Server)

def WindowCall.fetch (c : WindowCall) : Server × Except String Window :=
  velocity.fetch py (server.elapse c.elapsed) c.moment c.record

/-- The server that the calls leave. -/
def serverAfter (calls : List WindowCall) : Server :=
  calls.foldl (fun r c => (c.fetch py velocity r).1) server

/-- What a call returns after the calls before it. -/
def answer (before : List WindowCall) (c : WindowCall) : Except String Window :=
  (c.fetch py velocity (serverAfter py velocity server before)).2

end

/-- The members and the amounts, and the time since the last recording. -/
structure Kept where
  scores : Dict String ℚ := ∅
  amounts : Dict String String := ∅
  idle : ℚ := 0

namespace Kept

/-- Both keys run out together. -/
def elapse (k : Kept) (seconds : ℚ) : Kept :=
  if k.idle + seconds < keyTtlSeconds then { k with idle := k.idle + seconds } else {}

def trim (k : Kept) (moment : ℚ) : Kept :=
  { k with scores := RedisVelocity.trimmedMembers k.scores moment }

def record (k : Kept) (moment : ℚ) (t : Recorded) : Kept where
  scores := k.scores.set t.transactionRef moment
  amounts := k.amounts.set t.transactionRef (amountText t.amountMinor t.transactionType)

def call (k : Kept) (c : WindowCall) : Kept :=
  c.record.elim ((k.elapse c.elapsed).trim c.moment)
    (((k.elapse c.elapsed).trim c.moment).record c.moment)

/-- What is kept after the calls. -/
def after (calls : List WindowCall) : Kept := calls.foldl call {}

theorem after_concat (calls : List WindowCall) (c : WindowCall) :
    after (calls ++ [c]) = (after calls).call c := by
  rw [after, List.foldl_append]
  rfl

end Kept

/-- The server has what is kept at the two keys, and both run out after the last recording. -/
structure HoldsKept (velocity : RedisVelocity) (server : Server) (k : Kept) : Prop where
  members : server.sortedSet? velocity.membersKey = some k.scores
  amounts : server.hash? velocity.amountsKey = some k.amounts
  membersDue : Due server velocity.membersKey keyTtlSeconds k.idle
  amountsDue : Due server velocity.amountsKey keyTtlSeconds k.idle

/-- The server holds what the calls leave, and the counters of what they recorded. -/
structure Backed (py : Python) (velocity : RedisVelocity) (server : Server)
    (calls : List WindowCall) : Prop where
  kept : HoldsKept velocity server (Kept.after calls)
  aggregates : server.hash? velocity.aggregatesKey = some (aggregatesAfter py (recordings calls))
  lasting : server.deadline? velocity.aggregatesKey = none

/-- The call returns: the counters take what it records. -/
def Answers (py : Python) (before : List WindowCall) (c : WindowCall) : Prop :=
  ∀ t, c.record = some t →
    RedisVelocity.CountersTake (aggregatesAfter py (recordings before)) t

/-- The window that a call reads of what is kept. -/
def keptWindow (py : Python) (calls : List WindowCall) (moment : ℚ) : Window :=
  windowOf py moment (rangeFrom (Kept.after calls).scores (moment - largestWindowSeconds))
    (Kept.after calls).amounts (aggregatesAfter py (recordings calls))

section
variable {py : Python} {velocity : RedisVelocity} {server : Server} {calls : List WindowCall}
  {c : WindowCall} {k : Kept} {seconds : ℚ}

theorem recordings_concat (calls : List WindowCall) (c : WindowCall) :
    recordings (calls ++ [c]) = recordings calls ++ c.recording?.toList := by
  rw [recordings, List.filterMap_append]
  cases h : c.recording? <;> simp [recordings, h]

theorem serverAfter_concat (py : Python) (velocity : RedisVelocity) (server : Server)
    (calls : List WindowCall) (c : WindowCall) :
    serverAfter py velocity server (calls ++ [c]) =
      (c.fetch py velocity (serverAfter py velocity server calls)).1 := by
  rw [serverAfter, List.foldl_append]
  rfl

theorem HoldsKept.elapse (h : HoldsKept velocity server k) (hseconds : 0 ≤ seconds) :
    HoldsKept velocity (server.elapse seconds) (k.elapse seconds) := by
  have hmembers := h.membersDue.find?_elapse hseconds
  have hamounts := h.amountsDue.find?_elapse hseconds
  by_cases hin : k.idle + seconds < keyTtlSeconds
  · rw [if_pos hin] at hmembers hamounts
    rw [Kept.elapse, if_pos hin]
    refine ⟨?_, ?_, h.membersDue.elapse hseconds, h.amountsDue.elapse hseconds⟩
    · rw [Server.sortedSet?_congr hmembers]
      exact h.members
    · rw [Server.hash?_congr hamounts]
      exact h.amounts
  · rw [if_neg hin] at hmembers hamounts
    rw [Kept.elapse, if_neg hin]
    refine ⟨?_, ?_, due_of_none hmembers _ _, due_of_none hamounts _ _⟩
    · rw [Server.sortedSet?, hmembers]
      rfl
    · rw [Server.hash?, hamounts]
      rfl

theorem NoHistory.backed (py : Python) (h : NoHistory velocity server) :
    Backed py velocity server [] where
  kept := by
    refine ⟨?_, ?_, due_of_none h.members _ _, due_of_none h.amounts _ _⟩
    · rw [Server.sortedSet?, h.members]
      rfl
    · rw [Server.hash?, h.amounts]
      rfl
  aggregates := by
    rw [Server.hash?, h.aggregates]
    rfl
  lasting := by
    rw [Server.deadline?, h.aggregates]
    rfl

/-- One call: the server has what is kept after it, and the call reads that. -/
theorem Backed.call (h : Backed py velocity server calls) (c : WindowCall)
    (helapsed : 0 ≤ c.elapsed) :
    Backed py velocity (c.fetch py velocity server).1 (calls ++ [c]) ∧
      (Answers py calls c →
        (c.fetch py velocity server).2 = .ok (keptWindow py (calls ++ [c]) c.moment)) ∧
      (¬ Answers py calls c → ∃ message, (c.fetch py velocity server).2 = .error message) := by
  have hkept := h.kept.elapse helapsed
  have hlasting : (server.elapse c.elapsed).find? velocity.aggregatesKey =
      server.find? velocity.aggregatesKey :=
    Server.find?_elapse_of_lt helapsed fun deadline hd => by
      rw [h.lasting] at hd
      cases hd
  have haggregates : (server.elapse c.elapsed).hash? velocity.aggregatesKey =
      some (aggregatesAfter py (recordings calls)) := by
    rw [Server.hash?_congr hlasting]
    exact h.aggregates
  cases hrecord : c.record with
  | none =>
    obtain ⟨server', hfetch, hnow, hscores, hdeadline, hothers⟩ :=
      RedisVelocity.gather_eq py c.moment hkept.members hkept.amounts haggregates
    have hafter : Kept.after (calls ++ [c]) =
        ((Kept.after calls).elapse c.elapsed).trim c.moment := by
      rw [Kept.after_concat, Kept.call, hrecord]
      rfl
    have hsame : recordings (calls ++ [c]) = recordings calls := by
      rw [recordings_concat, WindowCall.recording?, hrecord]
      exact List.append_nil _
    have hamounts := hothers _ velocity.membersKey_ne_amountsKey.symm
    have hcounters := hothers _ velocity.membersKey_ne_aggregatesKey.symm
    have hmembersDue : Due server' velocity.membersKey keyTtlSeconds
        ((Kept.after calls).elapse c.elapsed).idle := by
      intro entry hentry
      obtain ⟨entry', hfind, heq⟩ := hdeadline entry hentry
      rw [heq, hnow]
      exact hkept.membersDue entry' hfind
    have hamountsDue : Due server' velocity.amountsKey keyTtlSeconds
        ((Kept.after calls).elapse c.elapsed).idle := by
      intro entry hentry
      rw [hamounts] at hentry
      rw [hnow]
      exact hkept.amountsDue entry hentry
    rw [WindowCall.fetch, hrecord, hfetch, keptWindow, hsame, hafter]
    refine ⟨⟨?_, ?_, ?_⟩, fun _ => rfl, fun hno => absurd (fun t ht => ?_) hno⟩
    · rw [hafter]
      refine ⟨hscores, ?_, hmembersDue, hamountsDue⟩
      rw [Server.hash?_congr hamounts]
      exact hkept.amounts
    · rw [Server.hash?_congr hcounters, hsame]
      exact haggregates
    · rw [Server.deadline?, hcounters, hlasting]
      exact h.lasting
    · rw [hrecord] at ht
      cases ht
  | some t =>
    obtain ⟨server', result, hfetch, hnow, hm, ha, hg, hok, herror⟩ :=
      RedisVelocity.recordAndGather_eq py t c.moment hkept.members hkept.amounts haggregates
    have hafter : Kept.after (calls ++ [c]) =
        (((Kept.after calls).elapse c.elapsed).trim c.moment).record c.moment t := by
      rw [Kept.after_concat, Kept.call, hrecord]
      rfl
    have hgrown : recordings (calls ++ [c]) = recordings calls ++ [⟨c.elapsed, c.moment, t⟩] := by
      rw [recordings_concat, WindowCall.recording?, hrecord]
      rfl
    have hcounters : aggregatesAfter py (recordings (calls ++ [c])) =
        RedisVelocity.recordedAggregates py c.moment t (aggregatesAfter py (recordings calls)) := by
      rw [hgrown, aggregatesAfter_concat]
    have hdeadline : (server.elapse c.elapsed).now + (keyTtlSeconds : ℚ) =
        server'.now - 0 + keyTtlSeconds := by
      rw [hnow, sub_zero]
    rw [WindowCall.fetch, hrecord, ← RedisVelocity.recordAndGather, hfetch, keptWindow, hcounters,
      hafter]
    refine ⟨⟨?_, ?_, ?_⟩, fun htake => hok (htake t hrecord), fun hno => herror fun htake => ?_⟩
    · rw [hafter]
      refine ⟨Server.sortedSet?_of_find? hm, Server.hash?_of_find? ha, ?_, ?_⟩
      · exact due_of_find? hm (congrArg some hdeadline)
      · exact due_of_find? ha (congrArg some hdeadline)
    · rw [hcounters]
      exact Server.hash?_of_find? hg
    · exact Server.deadline?_of_find? hg
    · refine hno fun t' ht' => ?_
      rw [hrecord] at ht'
      cases ht'
      exact htake

/-- The run lemma. -/
theorem backed_serverAfter (hnew : NoHistory velocity server)
    (helapsed : ∀ c ∈ calls, 0 ≤ c.elapsed) :
    Backed py velocity (serverAfter py velocity server calls) calls := by
  induction calls using List.reverseRecOn with
  | nil => exact hnew.backed py
  | append_singleton calls c ih =>
    rw [serverAfter_concat]
    refine ((ih fun b hb => ?_).call c ?_).1
    · exact helapsed b (List.mem_append_left _ hb)
    · exact helapsed c (List.mem_append_right _ (List.mem_singleton_self c))

/-- What a call returns, by what is kept after it. -/
theorem answer_eq_ok_iff {before : List WindowCall} (hnew : NoHistory velocity server)
    (helapsed : ∀ b ∈ before ++ [c], 0 ≤ b.elapsed) {window : Window} :
    answer py velocity server before c = .ok window ↔
      Answers py before c ∧ window = keptWindow py (before ++ [c]) c.moment := by
  have hbacked : Backed py velocity (serverAfter py velocity server before) before :=
    backed_serverAfter hnew fun b hb => helapsed b (List.mem_append_left _ hb)
  obtain ⟨-, hok, herror⟩ := hbacked.call c
    (helapsed c (List.mem_append_right _ (List.mem_singleton_self c)))
  rw [answer]
  by_cases hanswers : Answers py before c
  · rw [hok hanswers, Except.ok.injEq, eq_comm]
    exact ⟨fun h => ⟨hanswers, h⟩, fun h => h.2⟩
  · obtain ⟨message, hmessage⟩ := herror hanswers
    rw [hmessage]
    refine iff_of_false (fun h => ?_) fun h => hanswers h.1
    cases h

end

/-! ## Of which recordings -/

/-- The recordings since the keys last ran out, and the time since the last of them. -/
structure Living where
  recordings : List RecordCall := []
  idle : ℚ := 0

namespace Living

def elapse (l : Living) (seconds : ℚ) : Living :=
  if l.idle + seconds < keyTtlSeconds then { l with idle := l.idle + seconds } else {}

def call (l : Living) (c : WindowCall) : Living :=
  c.recording?.elim (l.elapse c.elapsed) fun r => ⟨(l.elapse c.elapsed).recordings ++ [r], 0⟩

def after (calls : List WindowCall) : Living := calls.foldl call {}

theorem after_concat (calls : List WindowCall) (c : WindowCall) :
    after (calls ++ [c]) = (after calls).call c := by
  rw [after, List.foldl_append]
  rfl

end Living

/-- The reference that the call records. -/
def WindowCall.ref? (c : WindowCall) : Option String := c.record.map Recorded.transactionRef

section
variable {calls : List WindowCall} {c : WindowCall} {k : Kept} {l : Living}

theorem latest_append (first second : List RecordCall) (ref : String) :
    (latest (first ++ second)).get? ref =
      ((latest second).get? ref).or ((latest first).get? ref) := by
  induction second using List.reverseRecOn with
  | nil => rw [List.append_nil]; rfl
  | append_singleton second r ih =>
    rw [← List.append_assoc, latest_concat, latest_concat]
    by_cases href : ref = r.ref
    · subst href
      rw [Dict.get?_set_self, Dict.get?_set_self]
      rfl
    · rw [Dict.get?_set_of_ne href, Dict.get?_set_of_ne href]
      exact ih

/-- The keys run out with the oldest recordings. -/
theorem living_suffix (calls : List WindowCall) :
    (Living.after calls).recordings <:+ recordings calls := by
  induction calls using List.reverseRecOn with
  | nil => exact List.suffix_refl _
  | append_singleton calls c ih =>
    have helapse : ((Living.after calls).elapse c.elapsed).recordings <:+ recordings calls := by
      rw [Living.elapse]
      split
      · exact ih
      · exact List.nil_suffix
    rw [Living.after_concat, recordings_concat, Living.call]
    cases c.recording? with
    | none =>
      rw [Option.toList_none, List.append_nil]
      exact helapse
    | some r =>
      obtain ⟨gone, hgone⟩ := helapse
      refine ⟨gone, ?_⟩
      rw [← hgone, List.append_assoc]
      rfl

theorem latest_of_living {r : RecordCall}
    (h : (latest (Living.after calls).recordings).get? ref = some r) :
    (latest (recordings calls)).get? ref = some r := by
  obtain ⟨gone, hgone⟩ := living_suffix calls
  rw [← hgone, latest_append, h]
  rfl

theorem get?_trimmedMembers {scores : Dict String ℚ} {moment score : ℚ} :
    (RedisVelocity.trimmedMembers scores moment).get? ref = some score ↔
      scores.get? ref = some score ∧ ¬ (0 ≤ score ∧ score ≤ moment - largestWindowSeconds) := by
  rw [Dict.get?_eq_some_iff, Dict.get?_eq_some_iff]
  refine List.mem_filter.trans (and_congr_right fun _ => ?_)
  exact decide_eq_true_iff

/-- What a call leaves of the members. -/
theorem Kept.get?_scores_call (k : Kept) (c : WindowCall) (ref : String) :
    (k.call c).scores.get? ref = if c.ref? = some ref then some c.moment
      else (RedisVelocity.trimmedMembers (k.elapse c.elapsed).scores c.moment).get? ref := by
  rw [Kept.call, WindowCall.ref?]
  cases c.record with
  | none => rfl
  | some t =>
    by_cases href : t.transactionRef = ref
    · subst href
      exact (Dict.get?_set_self _ _ _).trans (if_pos rfl).symm
    · exact (Dict.get?_set_of_ne (Ne.symm href) _ _).trans
        (if_neg fun h => href (Option.some.inj h)).symm

/-- What a call leaves of the amounts. -/
theorem Kept.get?_amounts_call (k : Kept) (c : WindowCall) (ref : String) :
    (k.call c).amounts.get? ref = if c.ref? = some ref then c.recording?.map RecordCall.text
      else (k.elapse c.elapsed).amounts.get? ref := by
  rw [Kept.call, WindowCall.ref?, WindowCall.recording?]
  cases c.record with
  | none => rfl
  | some t =>
    by_cases href : t.transactionRef = ref
    · subst href
      exact (Dict.get?_set_self _ _ _).trans (if_pos rfl).symm
    · exact (Dict.get?_set_of_ne (Ne.symm href) _ _).trans
        (if_neg fun h => href (Option.some.inj h)).symm

/-- Which recording is the last of a reference after a call. -/
theorem Living.latest_call (l : Living) (c : WindowCall) (ref : String) :
    (latest (l.call c).recordings).get? ref = if c.ref? = some ref then c.recording?
      else (latest (l.elapse c.elapsed).recordings).get? ref := by
  rw [Living.call, WindowCall.ref?, WindowCall.recording?]
  cases c.record with
  | none => rfl
  | some t =>
    rw [Option.map_some, Option.map_some, Option.elim_some, latest_concat]
    by_cases href : t.transactionRef = ref
    · subst href
      exact (Dict.get?_set_self _ _ _).trans (if_pos rfl).symm
    · exact (Dict.get?_set_of_ne (Ne.symm href) _ _).trans
        (if_neg fun h => href (Option.some.inj h)).symm

/-- What is kept, of the recordings that live: the amount of the last of each reference, and of
some of them the score. -/
structure Kept.Of (k : Kept) (l : Living) : Prop where
  idle : k.idle = l.idle
  amounts : ∀ ref, k.amounts.get? ref = ((latest l.recordings).get? ref).map RecordCall.text
  scores : ∀ ref score, k.scores.get? ref = some score →
    ((latest l.recordings).get? ref).map RecordCall.moment = some score

theorem Kept.Of.elapse (h : k.Of l) (seconds : ℚ) : (k.elapse seconds).Of (l.elapse seconds) := by
  rw [Kept.elapse, Living.elapse, h.idle]
  split
  · exact ⟨rfl, h.amounts, h.scores⟩
  · refine ⟨rfl, fun ref => rfl, fun ref score hscore => ?_⟩
    cases hscore

theorem Kept.Of.call (h : k.Of l) (c : WindowCall) : (k.call c).Of (l.call c) := by
  have hpast := h.elapse c.elapsed
  refine ⟨?_, fun ref => ?_, fun ref score hscore => ?_⟩
  · rw [Kept.call, Living.call, WindowCall.recording?]
    cases c.record with
    | none => exact hpast.idle
    | some t => rfl
  · rw [Kept.get?_amounts_call, Living.latest_call]
    split
    · rfl
    · exact hpast.amounts ref
  · rw [Kept.get?_scores_call] at hscore
    rw [Living.latest_call]
    split
    · rename_i href
      rw [if_pos href] at hscore
      cases hscore
      obtain ⟨t, ht, -⟩ := Option.map_eq_some_iff.mp href
      rw [WindowCall.recording?, ht]
      rfl
    · rename_i href
      rw [if_neg href] at hscore
      exact hpast.scores ref score (get?_trimmedMembers.mp hscore).1

theorem kept_of_living (calls : List WindowCall) :
    (Kept.after calls).Of (Living.after calls) := by
  induction calls using List.reverseRecOn with
  | nil => exact ⟨rfl, fun _ => rfl, fun _ _ h => by cases h⟩
  | append_singleton calls c ih =>
    rw [Kept.after_concat, Living.after_concat]
    exact ih.call c

end

end ComplyLayer
