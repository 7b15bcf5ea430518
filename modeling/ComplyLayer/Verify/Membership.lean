import ComplyLayer.Verify.Retention

/-!
# The members and the amounts

A call that trims takes references out of the members only: no command takes one out of the amounts.
So the two have the same references exactly as long as nothing is trimmed that the call does not
record again, and a reference that is in the amounts only stays there until both keys run out.
-/

namespace ComplyLayer

open Theory Redis

/-- The amounts have the references of the members and no others, and each member its own amount
and type: those it was last recorded with. -/
def SameTransactions (velocity : RedisVelocity) (server : Server) (calls : List WindowCall) :
    Prop :=
  ∃ scores amounts, server.sortedSet? velocity.membersKey = some scores ∧
    server.hash? velocity.amountsKey = some amounts ∧
    (∀ ref, ref ∈ amounts.keys ↔ ref ∈ scores.keys) ∧
    ∀ ref ∈ scores.keys, ∃ r, (latest (recordings calls)).get? ref = some r ∧
      amounts.get? ref = some r.text

/-- The two describe the same transactions after each of the calls. -/
def StayTheSame (py : Python) (velocity : RedisVelocity) (server : Server)
    (calls : List WindowCall) : Prop :=
  ∀ before c after, calls = before ++ c :: after →
    SameTransactions velocity (serverAfter py velocity server (before ++ [c])) (before ++ [c])

/-- The call trims no reference that it does not record. -/
def TrimsNone (before : List WindowCall) (c : WindowCall) : Prop :=
  ∀ ref r, (latest ((Living.after before).elapse c.elapsed).recordings).get? ref = some r →
    0 ≤ r.moment → r.moment ≤ c.moment - largestWindowSeconds → c.ref? = some ref

section
variable {py : Python} {velocity : RedisVelocity} {server : Server} {calls before : List WindowCall}
  {c : WindowCall} {k : Kept} {l : Living}

/-- The amounts have the references of every recording that lives. -/
theorem Kept.Of.mem_amounts (h : k.Of l) (ref : String) :
    ref ∈ k.amounts.keys ↔ ∃ r, (latest l.recordings).get? ref = some r := by
  rw [Dict.mem_keys_iff, h.amounts]
  constructor
  · rintro ⟨text, htext⟩
    obtain ⟨r, hr, -⟩ := Option.map_eq_some_iff.mp htext
    exact ⟨r, hr⟩
  · rintro ⟨r, hr⟩
    exact ⟨r.text, by rw [hr]; rfl⟩

theorem Kept.Of.amounts_of_scores (h : k.Of l) (hmem : ref ∈ k.scores.keys) :
    ref ∈ k.amounts.keys := by
  obtain ⟨score, hscore⟩ := (Dict.mem_keys_iff _).mp hmem
  obtain ⟨r, hr, -⟩ := Option.map_eq_some_iff.mp (h.scores ref score hscore)
  exact (h.mem_amounts ref).mpr ⟨r, hr⟩

/-- What the server holds describes the same transactions where what is kept does. -/
theorem Backed.sameTransactions_iff (h : Backed py velocity server calls) :
    SameTransactions velocity server calls ↔
      ∀ ref ∈ (Kept.after calls).amounts.keys, ref ∈ (Kept.after calls).scores.keys := by
  have hof := kept_of_living calls
  constructor
  · rintro ⟨scores, amounts, hscores, hamounts, hsame, -⟩
    cases h.kept.members.symm.trans hscores
    cases h.kept.amounts.symm.trans hamounts
    exact fun ref href => (hsame ref).mp href
  · intro hsame
    refine ⟨_, _, h.kept.members, h.kept.amounts, fun ref => ⟨hsame ref, hof.amounts_of_scores⟩,
      fun ref href => ?_⟩
    obtain ⟨r, hr⟩ := (hof.mem_amounts ref).mp (hof.amounts_of_scores href)
    exact ⟨r, latest_of_living hr, by rw [hof.amounts, hr]; rfl⟩

theorem mem_elapse (h : ∀ ref ∈ k.amounts.keys, ref ∈ k.scores.keys) (seconds : ℚ) :
    ∀ ref ∈ (k.elapse seconds).amounts.keys, ref ∈ (k.elapse seconds).scores.keys := by
  rw [Kept.elapse]
  split
  · exact h
  · exact fun _ href => href

/-- The step: from a state where they are the same, a call keeps them so exactly when it trims none
but what it records. -/
theorem same_call_iff (hsame : ∀ ref ∈ (Kept.after before).amounts.keys,
      ref ∈ (Kept.after before).scores.keys) (c : WindowCall) :
    (∀ ref ∈ (Kept.after (before ++ [c])).amounts.keys,
      ref ∈ (Kept.after (before ++ [c])).scores.keys) ↔ TrimsNone before c := by
  have hof := (kept_of_living before).elapse c.elapsed
  have hpast := mem_elapse hsame c.elapsed
  rw [Kept.after_concat]
  simp only [Dict.mem_keys_iff, Kept.get?_amounts_call, Kept.get?_scores_call]
  constructor
  · intro h ref r hr hnonneg hold
    by_contra href
    obtain ⟨score, hscore⟩ := h ref ⟨r.text, by rw [if_neg href, hof.amounts, hr]; rfl⟩
    rw [if_neg href] at hscore
    obtain ⟨hkept, hrecent⟩ := get?_trimmedMembers.mp hscore
    have hmoment := hof.scores ref score hkept
    rw [hr] at hmoment
    cases hmoment
    exact hrecent ⟨hnonneg, hold⟩
  · rintro htrims ref ⟨text, htext⟩
    by_cases href : c.ref? = some ref
    · exact ⟨c.moment, if_pos href⟩
    · rw [if_neg href] at htext ⊢
      obtain ⟨score, hscore⟩ := (Dict.mem_keys_iff _).mp
        (hpast ref ((Dict.mem_keys_iff _).mpr ⟨text, htext⟩))
      obtain ⟨r, hr, hmoment⟩ := Option.map_eq_some_iff.mp (hof.scores ref score hscore)
      refine ⟨score, get?_trimmedMembers.mpr ⟨hscore, fun htrimmed => href ?_⟩⟩
      rw [← hmoment] at htrimmed
      exact htrims ref r hr htrimmed.1 htrimmed.2

/-- **The amounts keep what the members lose.** After each call the amounts and the members describe
the same transactions exactly when no call trims a reference without recording it: where among the
recordings that have not run out, the last of no other reference is at or before the cutoff. -/
theorem stay_the_same_iff (hnew : NoHistory velocity server) (helapsed : ∀ c ∈ calls, 0 ≤ c.elapsed) :
    StayTheSame py velocity server calls ↔
      ∀ before c after, calls = before ++ c :: after → TrimsNone before c := by
  have hbacked {before after : List WindowCall} {c : WindowCall}
      (hsplit : calls = before ++ c :: after) :
      Backed py velocity (serverAfter py velocity server (before ++ [c])) (before ++ [c]) := by
    refine backed_serverAfter hnew fun b hb => helapsed b ?_
    rw [hsplit]
    rcases List.mem_append.mp hb with hb | hb
    · exact List.mem_append_left _ hb
    · rw [List.mem_singleton.mp hb]
      exact List.mem_append_right _ List.mem_cons_self
  have hsplits : StayTheSame py velocity server calls ↔
      ∀ before c after, calls = before ++ c :: after →
        ∀ ref ∈ (Kept.after (before ++ [c])).amounts.keys,
          ref ∈ (Kept.after (before ++ [c])).scores.keys := by
    refine forall_congr' fun before => forall_congr' fun c => forall_congr' fun after =>
      forall_congr' fun hsplit => ?_
    exact (hbacked hsplit).sameTransactions_iff
  have hnone : ∀ ref ∈ (Kept.after []).amounts.keys, ref ∈ (Kept.after []).scores.keys :=
    fun _ href => absurd href List.not_mem_nil
  rw [hsplits]
  constructor
  · intro h before c after hsplit
    refine (same_call_iff ?_ c).mp (h before c after hsplit)
    cases before using List.reverseRecOn with
    | nil => exact hnone
    | append_singleton before b =>
      refine h before b (c :: after) ?_
      rw [hsplit, List.append_assoc]
      rfl
  · intro h before c after hsplit
    -- By induction on the calls before: they are the same when this one begins.
    induction before using List.reverseRecOn generalizing c after with
    | nil => exact (same_call_iff hnone c).mpr (h [] c after hsplit)
    | append_singleton before b ih =>
      refine (same_call_iff (ih b (c :: after) ?_) c).mpr (h _ c after hsplit)
      rw [hsplit, List.append_assoc]
      rfl

end

/-! A transaction, and the window read again within thirty days, and a second later than that. -/

def recordedOnce : WindowCall := { moment := 1000, record := some ⟨"tx_1", 700, "transfer"⟩ }

def readAfter (seconds : ℚ) : WindowCall := { elapsed := seconds, moment := 1000 + seconds }

theorem Living.mem_elapse {l : Living} {r : RecordCall} {seconds : ℚ}
    (h : r ∈ (l.elapse seconds).recordings) : r ∈ l.recordings := by
  rw [Living.elapse] at h
  split at h
  · exact h
  · cases h

theorem stay_the_same_day :
    StayTheSame clockPython sampleVelocity {} [recordedOnce, readAfter 86400] := by
  have helapsed : ∀ c ∈ [recordedOnce, readAfter 86400], 0 ≤ c.elapsed := by decide +kernel
  refine (stay_the_same_iff (noHistory_empty _) helapsed).mpr fun before c after hsplit => ?_
  intro ref r hr hnonneg hold
  have hliving := Living.mem_elapse (mem_of_latest hr).1
  have hrecorded := (living_suffix before).subset hliving
  cases before with
  | nil => cases hrecorded
  | cons b before =>
    cases before with
    | nil =>
      cases hsplit
      have hmoment : (1000 : ℚ) ≤ (readAfter 86400).moment - largestWindowSeconds := by
        rw [List.mem_singleton.mp hrecorded] at hold
        exact hold
      exact absurd hmoment (by decide +kernel)
    | cons d before =>
      have hlength := congrArg List.length hsplit
      simp at hlength

theorem amount_outlives_member :
    ¬ StayTheSame clockPython sampleVelocity {} [recordedOnce, readAfter 2592001] ∧
    (Kept.after [recordedOnce, readAfter 2592001]).scores.keys = [] ∧
    (Kept.after [recordedOnce, readAfter 2592001]).amounts.keys = ["tx_1"] := by
  have hscores : (Kept.after [recordedOnce, readAfter 2592001]).scores.keys = [] := by
    decide +kernel
  have hamounts : (Kept.after [recordedOnce, readAfter 2592001]).amounts.keys = ["tx_1"] := by
    decide +kernel
  have helapsed : ∀ c ∈ [recordedOnce, readAfter 2592001], 0 ≤ c.elapsed := by decide +kernel
  refine ⟨fun h => ?_, hscores, hamounts⟩
  have hsame := (backed_serverAfter (noHistory_empty _) helapsed).sameTransactions_iff.mp
    (h [recordedOnce] (readAfter 2592001) [] rfl) "tx_1" (by rw [hamounts]; decide)
  rw [hscores] at hsame
  cases hsame

end ComplyLayer
