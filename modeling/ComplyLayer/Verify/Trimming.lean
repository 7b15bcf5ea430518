import ComplyLayer.Verify.Membership
import ComplyLayer.Verify.Retries
import ComplyLayer.Verify.Truncation
import Mathlib.Data.List.Perm.Subperm

/-!
# What trimming loses

A rule counts an entry whose score is at the cutoff, and the fetch reads it. The trim before them
removes it. So the answers are those over the whole history exactly as long as no call comes when
the last recording of a reference is just as old as the largest window, and the keys do not run out
while a recording is in it. They do not where the clock of the server keeps step with the instants.
-/

namespace ComplyLayer

open Theory Redis

/-- The last recording of a reference as an entry. -/
def historyEntry (ref : String) (r : RecordCall) : WindowEntry :=
  ⟨ref, r.moment, r.amount, r.recorded.transactionType⟩

/-- The window over the whole history. -/
def historyWindow (moment : ℚ) (history : List RecordCall) : Window where
  now := moment
  entries := (latest history).entries.map fun entry => historyEntry entry.1 entry.2

/-- The two windows give the same counts and totals, for every window a rule can name and every
filter. -/
def AnswersAlike (window full : Window) : Prop :=
  ∀ w seconds filters, windowSeconds? w = some seconds →
    window.count seconds filters = full.count seconds filters ∧
      window.total seconds filters = full.total seconds filters

/-- Every window that is returned answers as the whole history does. -/
def TrimmingUnseen (py : Python) (velocity : RedisVelocity) (server : Server)
    (calls : List WindowCall) : Prop :=
  ∀ before c after window, calls = before ++ c :: after →
    answer py velocity server before c = .ok window →
    AnswersAlike window (historyWindow c.moment (recordings (before ++ [c])))

/-- The entries from a score on. -/
def entriesFrom (low : ℚ) (entries : List WindowEntry) : List WindowEntry :=
  entries.filter fun entry => low ≤ entry.score

/-- No call has more members in the largest window than one fetch takes. -/
def Fetchable (calls : List WindowCall) : Prop :=
  ∀ before c after, calls = before ++ c :: after →
    (entriesFrom (c.moment - largestWindowSeconds)
      (historyWindow c.moment (recordings (before ++ [c]))).entries).length ≤ maxMembersFetched

/-- The last recording of a reference in the largest window has not run out, and is not at the
cutoff, where the trim reaches it. -/
def KeepsWindow (before : List WindowCall) (c : WindowCall) : Prop :=
  ∀ ref r, (latest (recordings (before ++ [c]))).get? ref = some r →
    c.moment - largestWindowSeconds ≤ r.moment →
    (latest (Living.after (before ++ [c])).recordings).get? ref = some r ∧
      ¬ (0 ≤ r.moment ∧ r.moment = c.moment - largestWindowSeconds)

/-! ## What a window answers -/

/-- A window answers by its entries from any score on that is not after the cutoff. -/
theorem Window.answers_congr {a b : Window} {low : ℚ} {seconds : Nat} {filters : Filters}
    (hnow : a.now = b.now) (hlow : low ≤ b.now - seconds)
    (h : (entriesFrom low a.entries).Perm (entriesFrom low b.entries)) :
    a.count seconds filters = b.count seconds filters ∧
      a.total seconds filters = b.total seconds filters := by
  let cutoff := b.now - seconds
  have hyields (entries : List WindowEntry) : entries.filter (yields cutoff filters) =
      (entriesFrom low entries).filter (yields cutoff filters) := by
    rw [entriesFrom, List.filter_filter]
    refine List.filter_congr fun entry _ => ?_
    by_cases hin : low ≤ entry.score
    · rw [decide_eq_true hin, Bool.and_true]
    · have hold : entry.score < cutoff := lt_of_lt_of_le (not_le.mp hin) hlow
      rw [yields_of_lt hold, Bool.false_and]
  have hcomparable (entries : List WindowEntry) :
      (∀ entry ∈ entries, EntryComparable cutoff filters entry) ↔
        ∀ entry ∈ entriesFrom low entries, EntryComparable cutoff filters entry := by
    constructor
    · exact fun hall entry hentry => hall entry (List.mem_filter.mp hentry).1
    · intro hall entry hentry hin
      exact hall entry (List.mem_filter.mpr ⟨hentry, decide_eq_true (hlow.trans hin)⟩) hin
  have hmatching : ∃ xs ys : Except Raised (List Int), a.matching seconds filters = xs ∧
      b.matching seconds filters = ys ∧
        ((xs = typeError ∧ ys = typeError) ∨ ∃ l l', xs = .ok l ∧ ys = .ok l' ∧ l.Perm l') := by
    rw [matching, matching, hnow]
    refine ⟨_, _, rfl, rfl, ?_⟩
    by_cases hall : ∀ entry ∈ b.entries, EntryComparable cutoff filters entry
    · have hall' : ∀ entry ∈ a.entries, EntryComparable cutoff filters entry := by
        rw [hcomparable]
        exact fun entry hentry => (hcomparable _).mp hall entry (h.mem_iff.mp hentry)
      refine .inr ⟨_, _, matchingFrom_eq_ok hall', matchingFrom_eq_ok hall, ?_⟩
      rw [hyields a.entries, hyields b.entries]
      exact (h.filter _).map _
    · have hall' : ¬ ∀ entry ∈ a.entries, EntryComparable cutoff filters entry := by
        rw [hcomparable]
        intro ha
        refine hall ((hcomparable _).mpr fun entry hentry => ?_)
        exact ha entry (h.mem_iff.mpr hentry)
      exact .inl ⟨matchingFrom_eq_typeError hall', matchingFrom_eq_typeError hall⟩
  obtain ⟨xs, ys, hxs, hys, ⟨rfl, rfl⟩ | ⟨l, l', rfl, rfl, hperm⟩⟩ := hmatching
  · rw [count, count, total, total, hxs, hys]
    exact ⟨rfl, rfl⟩
  · rw [count, count, total, total, hxs, hys]
    refine ⟨?_, ?_⟩
    · exact congrArg (fun n : Nat => Except.ok (n : Int)) hperm.length_eq
    · exact congrArg Except.ok hperm.sum_eq

theorem entriesFrom_entriesFrom (low : ℚ) (entries : List WindowEntry) :
    entriesFrom low (entriesFrom low entries) = entriesFrom low entries := by
  refine List.filter_eq_self.mpr fun entry hentry => ?_
  exact (List.mem_filter.mp hentry).2

/-- Without filters the largest window counts its entries. -/
theorem Window.count_largest (window : Window) :
    window.count largestWindowSeconds {} =
      .ok ((entriesFrom (window.now - largestWindowSeconds) window.entries).length : Int) := by
  let inside : Window :=
    { window with entries := entriesFrom (window.now - largestWindowSeconds) window.entries }
  have hsame : window.count largestWindowSeconds {} = inside.count largestWindowSeconds {} := by
    refine (answers_congr (a := window) (b := inside) rfl (le_refl _) ?_).1
    exact .of_eq (entriesFrom_entriesFrom _ _).symm
  have hall : inside.matching largestWindowSeconds {} =
      .ok (inside.entries.map WindowEntry.amount) :=
    matchingFrom_unfiltered fun entry hentry => of_decide_eq_true (List.mem_filter.mp hentry).2
  rw [hsame, count, hall]
  exact congrArg (fun n : Nat => Except.ok (n : Int)) (List.length_map _)

section
variable {py : Python} {velocity : RedisVelocity} {server : Server} {calls before : List WindowCall}
  {c : WindowCall} {moment : ℚ}

/-! ## What is read of what is kept -/

/-- The members after the calls, trimmed by an instant that none of them is after: of the last
recordings that live, those the trim does not reach. -/
theorem get?_trimmed_after (h : ∀ b ∈ calls, b.moment ≤ moment) {ref : String} {score : ℚ} :
    (RedisVelocity.trimmedMembers (Kept.after calls).scores moment).get? ref = some score ↔
      ((latest (Living.after calls).recordings).get? ref).map RecordCall.moment = some score ∧
        ¬ (0 ≤ score ∧ score ≤ moment - largestWindowSeconds) := by
  rw [get?_trimmedMembers]
  refine and_congr_left fun hrecent => ?_
  refine ⟨(kept_of_living calls).scores ref score, fun hlatest => ?_⟩
  induction calls using List.reverseRecOn with
  | nil => cases hlatest
  | append_singleton calls c ih =>
    have hc : c.moment ≤ moment := h c (List.mem_append_right _ (List.mem_singleton_self c))
    rw [Living.after_concat, Living.latest_call] at hlatest
    rw [Kept.after_concat, Kept.get?_scores_call]
    by_cases href : c.ref? = some ref
    · rw [if_pos href] at hlatest ⊢
      obtain ⟨t, ht, -⟩ := Option.map_eq_some_iff.mp href
      rw [WindowCall.recording?, ht] at hlatest
      exact hlatest
    · rw [if_neg href] at hlatest ⊢
      refine get?_trimmedMembers.mpr ⟨?_, fun htrimmed => hrecent ⟨htrimmed.1, by linarith⟩⟩
      rw [Kept.elapse, (kept_of_living calls).idle]
      rw [Living.elapse] at hlatest
      split
      · rw [if_pos ‹_›] at hlatest
        exact ih (fun b hb => h b (List.mem_append_left _ hb)) hlatest
      · rw [if_neg ‹_›] at hlatest
        cases hlatest

/-- The last recording of a reference is a member after the call as long as it lives and the call
does not trim it. -/
theorem get?_scores_after (h : ∀ b ∈ before, b.moment ≤ c.moment) {ref : String} {r : RecordCall}
    (hliving : (latest (Living.after (before ++ [c])).recordings).get? ref = some r) :
    (Kept.after (before ++ [c])).scores.get? ref = some r.moment ↔
      ¬ (0 ≤ r.moment ∧ r.moment ≤ c.moment - largestWindowSeconds) := by
  have hall : ∀ b ∈ before ++ [c], b.moment ≤ c.moment := by
    intro b hb
    rcases List.mem_append.mp hb with hb | hb
    · exact h b hb
    · exact le_of_eq (congrArg _ (List.mem_singleton.mp hb))
  constructor
  · intro hscore
    rw [Kept.after_concat, Kept.get?_scores_call] at hscore
    split at hscore
    · rw [← Option.some.inj hscore]
      have hwindow : (0 : ℚ) < largestWindowSeconds := by norm_num [largestWindowSeconds]
      exact fun htrimmed => by linarith [htrimmed.2]
    · exact (get?_trimmedMembers.mp hscore).2
  · intro hrecent
    refine (get?_trimmedMembers.mp ((get?_trimmed_after hall).mpr ⟨?_, hrecent⟩)).1
    rw [hliving]
    rfl

theorem mem_entries_history {history : List RecordCall} {entry : WindowEntry} :
    entry ∈ (historyWindow moment history).entries ↔
      ∃ ref r, (latest history).get? ref = some r ∧ entry = historyEntry ref r := by
  constructor
  · intro h
    obtain ⟨⟨ref, r⟩, hmem, rfl⟩ := List.mem_map.mp h
    exact ⟨ref, r, (Dict.get?_eq_some_iff _).mpr hmem, rfl⟩
  · rintro ⟨ref, r, hget, rfl⟩
    exact List.mem_map_of_mem (f := fun entry => historyEntry entry.1 entry.2)
      ((Dict.get?_eq_some_iff _).mp hget)

theorem nodup_history (moment : ℚ) (history : List RecordCall) :
    (historyWindow moment history).entries.Nodup := by
  refine List.Nodup.of_map WindowEntry.member ?_
  rw [historyWindow, List.map_map]
  exact (latest history).nodup

/-- The entries that are read, as entries of the history. -/
theorem mem_read_iff {entry : WindowEntry} :
    entry ∈ readEntries moment (Kept.after calls).scores (Kept.after calls).amounts ↔
      ∃ ref r, (latest (Living.after calls).recordings).get? ref = some r ∧
        (Kept.after calls).scores.get? ref = some r.moment ∧
        moment - largestWindowSeconds ≤ r.moment ∧ entry = historyEntry ref r := by
  have hof := kept_of_living calls
  have hentry {ref : String} {r : RecordCall}
      (hliving : (latest (Living.after calls).recordings).get? ref = some r) :
      entryOf (Kept.after calls).amounts (ref, r.moment) = historyEntry ref r := by
    have htext : (Kept.after calls).amounts.get? ref = some r.text := by
      rw [hof.amounts, hliving]
      rfl
    rw [entryOf, htext, RecordCall.text, splitAmount_amountText]
    rfl
  constructor
  · intro h
    obtain ⟨⟨ref, score⟩, hmem, rfl⟩ := List.mem_map.mp h
    obtain ⟨hscore, hin⟩ := List.mem_filter.mp ((perm_sortBy _ _).mem_iff.mp hmem)
    have hget := (Dict.get?_eq_some_iff _).mpr hscore
    obtain ⟨r, hliving, rfl⟩ := Option.map_eq_some_iff.mp (hof.scores ref score hget)
    exact ⟨ref, r, hliving, hget, of_decide_eq_true hin, hentry hliving⟩
  · rintro ⟨ref, r, hliving, hget, hin, rfl⟩
    rw [← hentry hliving]
    refine List.mem_map_of_mem ((perm_sortBy _ _).mem_iff.mpr (List.mem_filter.mpr ⟨?_, ?_⟩))
    · exact (Dict.get?_eq_some_iff _).mp hget
    · exact decide_eq_true hin

theorem nodup_readEntries (scores : Dict String ℚ) (amounts : Dict String String) :
    (readEntries moment scores amounts).Nodup := by
  have hkeys : ((rangeFrom scores (moment - largestWindowSeconds)).map Prod.fst).Nodup :=
    ((perm_sortBy _ _).map Prod.fst).nodup_iff.mpr
      (scores.nodup.sublist (List.filter_sublist.map _))
  refine List.Nodup.of_map WindowEntry.member ?_
  rw [readEntries, List.map_map]
  exact hkeys

/-- A call reads entries of the history only, and every one of the largest window exactly where it
keeps the window. -/
theorem read_history (h : ∀ b ∈ before, b.moment ≤ c.moment) :
    let k := Kept.after (before ++ [c])
    let inside := entriesFrom (c.moment - largestWindowSeconds)
      (historyWindow c.moment (recordings (before ++ [c]))).entries
    readEntries c.moment k.scores k.amounts ⊆ inside ∧
      (inside ⊆ readEntries c.moment k.scores k.amounts ↔ KeepsWindow before c) := by
  intro k inside
  have hinside {entry : WindowEntry} : entry ∈ inside ↔
      ∃ ref r, (latest (recordings (before ++ [c]))).get? ref = some r ∧
        c.moment - largestWindowSeconds ≤ r.moment ∧ entry = historyEntry ref r := by
    constructor
    · intro hentry
      obtain ⟨hhistory, hin⟩ := List.mem_filter.mp hentry
      obtain ⟨ref, r, hget, rfl⟩ := mem_entries_history.mp hhistory
      exact ⟨ref, r, hget, of_decide_eq_true hin, rfl⟩
    · rintro ⟨ref, r, hget, hin, rfl⟩
      exact List.mem_filter.mpr ⟨mem_entries_history.mpr ⟨ref, r, hget, rfl⟩, decide_eq_true hin⟩
  refine ⟨fun entry hentry => ?_, fun hall ref r hget hin => ?_, fun hkeeps entry hentry => ?_⟩
  · obtain ⟨ref, r, hliving, -, hin, rfl⟩ := mem_read_iff.mp hentry
    exact hinside.mpr ⟨ref, r, latest_of_living hliving, hin, rfl⟩
  · obtain ⟨ref', r', hliving, hscore, -, heq⟩ :=
      mem_read_iff.mp (hall (hinside.mpr ⟨ref, r, hget, hin, rfl⟩))
    have href : ref = ref' := congrArg WindowEntry.member heq
    subst href
    cases (latest_of_living hliving).symm.trans hget
    refine ⟨hliving, fun hedge => (get?_scores_after h hliving).mp hscore ⟨hedge.1, ?_⟩⟩
    exact le_of_eq hedge.2
  · obtain ⟨ref, r, hget, hin, rfl⟩ := hinside.mp hentry
    obtain ⟨hliving, hedge⟩ := hkeeps ref r hget hin
    refine mem_read_iff.mpr ⟨ref, r, hliving, (get?_scores_after h hliving).mpr ?_, hin, rfl⟩
    exact fun htrimmed => hedge ⟨htrimmed.1, le_antisymm htrimmed.2 hin⟩

/-- Of one call: its window answers as the history does exactly where it keeps the window. -/
theorem answersAlike_iff (py : Python) (h : ∀ b ∈ before, b.moment ≤ c.moment)
    (hfew : (entriesFrom (c.moment - largestWindowSeconds)
      (historyWindow c.moment (recordings (before ++ [c]))).entries).length ≤ maxMembersFetched) :
    AnswersAlike (keptWindow py (before ++ [c]) c.moment)
      (historyWindow c.moment (recordings (before ++ [c]))) ↔ KeepsWindow before c := by
  let full := historyWindow c.moment (recordings (before ++ [c]))
  let read := readEntries c.moment (Kept.after (before ++ [c])).scores
    (Kept.after (before ++ [c])).amounts
  obtain ⟨hsub, hkeeps⟩ := read_history h
  have hsubperm : read.Subperm (entriesFrom (c.moment - largestWindowSeconds) full.entries) :=
    (nodup_readEntries _ _).subperm hsub
  have hentries : (keptWindow py (before ++ [c]) c.moment).entries = read := by
    rw [keptWindow, entries_windowOf_rangeFrom, Nat.sub_eq_zero_of_le, List.drop_zero]
    exact hsubperm.length_le.trans hfew
  have hrange : entriesFrom (c.moment - largestWindowSeconds) read = read := by
    refine List.filter_eq_self.mpr fun entry hentry => ?_
    obtain ⟨ref, r, -, -, hin, rfl⟩ := mem_read_iff.mp hentry
    exact decide_eq_true hin
  constructor
  · intro halike
    have hcount := (halike "30d" largestWindowSeconds {} rfl).1
    rw [Window.count_largest, Window.count_largest, hentries] at hcount
    have hlength : (entriesFrom (c.moment - largestWindowSeconds) read).length =
        (entriesFrom (c.moment - largestWindowSeconds) full.entries).length := by
      have := Except.ok.inj hcount
      exact_mod_cast this
    rw [hrange] at hlength
    exact hkeeps.mp (hsubperm.perm_of_length_le (le_of_eq hlength.symm)).symm.subset
  · intro hkept w seconds filters hw
    have hlow : c.moment - largestWindowSeconds ≤ full.now - seconds := by
      have hseconds : (seconds : ℚ) ≤ largestWindowSeconds := by
        exact_mod_cast windowSeconds?_le hw
      change c.moment - largestWindowSeconds ≤ c.moment - seconds
      linarith
    have hperm : read.Perm (entriesFrom (c.moment - largestWindowSeconds) full.entries) := by
      refine hsubperm.perm_of_length_le (List.Subperm.length_le ?_)
      exact ((nodup_history _ _).filter _).subperm (hkeeps.mpr hkept)
    refine Window.answers_congr rfl hlow ?_
    rw [hentries, hrange]
    exact hperm

/-- **Trimming takes an entry at the cutoff.** At instants that do not go back, with no more members
in the largest window than one fetch takes, every window that is returned answers as the whole
history does exactly when every call that returns one keeps its window. -/
theorem trimming_unseen_iff (py : Python) (hnew : NoHistory velocity server)
    (helapsed : ∀ c ∈ calls, 0 ≤ c.elapsed)
    (hclocks : calls.Pairwise fun a b => a.moment ≤ b.moment) (hfew : Fetchable calls) :
    TrimmingUnseen py velocity server calls ↔
      ∀ before c after, calls = before ++ c :: after → Answers py before c →
        KeepsWindow before c := by
  refine forall_congr' fun before => forall_congr' fun c => forall_congr' fun after => ?_
  rw [forall_comm]
  refine forall_congr' fun hsplit => ?_
  have hearlier : ∀ b ∈ before, b.moment ≤ c.moment := by
    rw [hsplit] at hclocks
    exact fun b hb => (List.pairwise_append.mp hclocks).2.2 b hb c List.mem_cons_self
  have helapsed' : ∀ b ∈ before ++ [c], 0 ≤ b.elapsed := by
    intro b hb
    refine helapsed b (hsplit ▸ ?_)
    rcases List.mem_append.mp hb with hb | hb
    · exact List.mem_append_left _ hb
    · rw [List.mem_singleton.mp hb]
      exact List.mem_append_right _ List.mem_cons_self
  rw [← answersAlike_iff py hearlier (hfew before c after hsplit)]
  constructor
  · exact fun h hanswers => h _ ((answer_eq_ok_iff hnew helapsed').mpr ⟨hanswers, rfl⟩)
  · intro h window hwindow
    obtain ⟨hanswers, rfl⟩ := (answer_eq_ok_iff hnew helapsed').mp hwindow
    exact h hanswers

/-- So few calls fill no fetch. -/
theorem fetchable_of_length (h : calls.length ≤ maxMembersFetched) : Fetchable calls := by
  intro before c after hsplit
  have hcalls : (before ++ [c]).length ≤ calls.length := by
    rw [hsplit]
    simp
  refine le_trans ?_ (hcalls.trans h)
  calc (entriesFrom (c.moment - largestWindowSeconds)
        (historyWindow c.moment (recordings (before ++ [c]))).entries).length
      ≤ (historyWindow c.moment (recordings (before ++ [c]))).entries.length :=
        List.length_filter_le _ _
    _ = (latest (recordings (before ++ [c]))).entries.length := List.length_map _
    _ ≤ (recordings (before ++ [c])).length := length_latest_le _
    _ ≤ (before ++ [c]).length := List.length_filterMap_le _ _

/-! ## A server that keeps step -/

/-- No more time passes on the server from one call to the next than between their instants. -/
def InStep (calls : List WindowCall) : Prop :=
  calls.Pairwise (fun a b => a.moment ≤ b.moment) ∧
    ∀ before a b after, calls = before ++ a :: b :: after → b.elapsed ≤ b.moment - a.moment

theorem InStep.left {rest : List WindowCall} (h : InStep (before ++ rest)) : InStep before := by
  refine ⟨(List.pairwise_append.mp h.1).1, fun first a b after heq => ?_⟩
  refine h.2 first a b (after ++ rest) ?_
  rw [heq]
  simp

/-- Which recording is the last of a reference, one call later. -/
theorem latest_recordings_concat (calls : List WindowCall) (c : WindowCall) (ref : String) :
    (latest (recordings (calls ++ [c]))).get? ref =
      if c.ref? = some ref then c.recording? else (latest (recordings calls)).get? ref := by
  rw [recordings_concat, WindowCall.ref?, WindowCall.recording?]
  cases c.record with
  | none =>
    rw [Option.map_none, Option.toList_none, List.append_nil]
    rfl
  | some t =>
    rw [Option.map_some, Option.map_some, Option.toList_some, latest_concat]
    by_cases href : t.transactionRef = ref
    · subst href
      exact (Dict.get?_set_self _ _ _).trans (if_pos rfl).symm
    · exact (Dict.get?_set_of_ne (Ne.symm href) _ _).trans
        (if_neg fun h => href (Option.some.inj h)).symm

/-- What lives is no older than the server says. -/
structure Timed (l : Living) (history : List RecordCall) (moment : ℚ) : Prop where
  idle : ∀ r ∈ l.recordings, r.moment + l.idle ≤ moment
  recent : ∀ r ∈ l.recordings, r.moment ≤ moment
  gone : ∀ ref r, (latest history).get? ref = some r →
    (latest l.recordings).get? ref = some r ∨ r.moment + keyTtlSeconds ≤ moment

theorem Timed.elapse {l : Living} {history : List RecordCall} {seconds : ℚ}
    (h : Timed l history (moment - seconds)) (hseconds : 0 ≤ seconds) :
    Timed (l.elapse seconds) history moment := by
  rw [Living.elapse]
  by_cases hin : l.idle + seconds < keyTtlSeconds
  · rw [if_pos hin]
    refine ⟨fun r hr => ?_, fun r hr => ?_, fun ref r hr => ?_⟩
    · have := h.idle r hr
      change r.moment + (l.idle + seconds) ≤ moment
      linarith
    · have := h.recent r hr
      linarith
    · refine (h.gone ref r hr).imp_right fun hgone => ?_
      linarith
  · rw [if_neg hin]
    refine ⟨fun r hr => absurd hr List.not_mem_nil, fun r hr => absurd hr List.not_mem_nil,
      fun ref r hr => .inr ?_⟩
    rcases h.gone ref r hr with hliving | hgone
    · have := h.idle r (mem_of_latest hliving).1
      linarith
    · linarith

theorem Timed.call (h : Timed ((Living.after calls).elapse c.elapsed) (recordings calls) c.moment) :
    Timed (Living.after (calls ++ [c])) (recordings (calls ++ [c])) c.moment := by
  have hgone : ∀ ref r, (latest (recordings (calls ++ [c]))).get? ref = some r →
      (latest ((Living.after calls).call c).recordings).get? ref = some r ∨
        r.moment + keyTtlSeconds ≤ c.moment := by
    intro ref r hr
    rw [latest_recordings_concat] at hr
    rw [Living.latest_call]
    by_cases href : c.ref? = some ref
    · rw [if_pos href] at hr ⊢
      exact .inl hr
    · rw [if_neg href] at hr ⊢
      exact h.gone ref r hr
  rw [Living.after_concat]
  cases hrecord : c.record with
  | none =>
    have hcall : (Living.after calls).call c = (Living.after calls).elapse c.elapsed := by
      rw [Living.call, WindowCall.recording?, hrecord]
      rfl
    rw [hcall] at hgone ⊢
    exact ⟨h.idle, h.recent, hgone⟩
  | some t =>
    have hcall : (Living.after calls).call c =
        ⟨((Living.after calls).elapse c.elapsed).recordings ++ [⟨c.elapsed, c.moment, t⟩], 0⟩ := by
      rw [Living.call, WindowCall.recording?, hrecord]
      rfl
    have hrecent : ∀ r ∈ ((Living.after calls).call c).recordings, r.moment ≤ c.moment := by
      intro r hr
      rw [hcall] at hr
      rcases List.mem_append.mp hr with hr | hr
      · exact h.recent r hr
      · rw [List.mem_singleton.mp hr]
    refine ⟨fun r hr => ?_, hrecent, hgone⟩
    have hidle : ((Living.after calls).call c).idle = 0 := congrArg Living.idle hcall
    rw [hidle, add_zero]
    exact hrecent r hr

theorem InStep.timed (helapsed : ∀ b ∈ before ++ [c], 0 ≤ b.elapsed) (h : InStep (before ++ [c])) :
    Timed (Living.after (before ++ [c])) (recordings (before ++ [c])) c.moment := by
  induction before using List.reverseRecOn generalizing c with
  | nil =>
    have hnone : Timed (Living.after []) (recordings []) (c.moment - c.elapsed) :=
      ⟨fun r hr => absurd hr List.not_mem_nil, fun r hr => absurd hr List.not_mem_nil,
        fun ref r hr => by cases hr⟩
    exact (hnone.elapse (helapsed c (List.mem_singleton_self c))).call
  | append_singleton before b ih =>
    have hb := ih (fun d hd => helapsed d (List.mem_append_left _ hd)) h.left
    have hpause := h.2 before b c [] (by simp)
    have hlater : Timed (Living.after (before ++ [b])) (recordings (before ++ [b]))
        (c.moment - c.elapsed) := by
      refine ⟨fun r hr => ?_, fun r hr => ?_, fun ref r hr => ?_⟩
      · have := hb.idle r hr
        linarith
      · have := hb.recent r hr
        linarith
      · refine (hb.gone ref r hr).imp_right fun hgone => ?_
        linarith
    have hc := helapsed c (List.mem_append_right _ (List.mem_singleton_self c))
    exact (hlater.elapse hc).call

/-- On a server that keeps step, only the cutoff matters. -/
theorem keepsWindow_iff_of_inStep (helapsed : ∀ b ∈ before ++ [c], 0 ≤ b.elapsed)
    (h : InStep (before ++ [c])) : KeepsWindow before c ↔
      ∀ ref r, (latest (recordings (before ++ [c]))).get? ref = some r →
        ¬ (0 ≤ r.moment ∧ r.moment = c.moment - largestWindowSeconds) := by
  constructor
  · intro hkeeps ref r hr hedge
    exact (hkeeps ref r hr (le_of_eq hedge.2.symm)).2 hedge
  · intro hnone ref r hr hin
    refine ⟨((h.timed helapsed).gone ref r hr).resolve_right fun hgone => ?_, hnone ref r hr⟩
    have hmargin : (largestWindowSeconds : ℚ) < keyTtlSeconds := by
      exact_mod_cast (by decide : largestWindowSeconds < keyTtlSeconds)
    linarith

end

/-! The window a day after a transaction, and when the transaction is as old as the largest
window. -/

theorem moment_of_recordedOnce {seconds : ℚ} {before after : List WindowCall} {c : WindowCall}
    (hsplit : [recordedOnce, readAfter seconds] = before ++ c :: after) {ref : String}
    {r : RecordCall} (h : (latest (recordings (before ++ [c]))).get? ref = some r) :
    r.moment = 1000 := by
  have hin : r ∈ recordings [recordedOnce, readAfter seconds] := by
    rw [hsplit, recordings, List.append_cons, List.filterMap_append]
    exact List.mem_append_left _ (mem_of_latest h).1
  have hmem : r ∈ [(⟨0, 1000, ⟨"tx_1", 700, "transfer"⟩⟩ : RecordCall)] := hin
  rw [List.mem_singleton.mp hmem]

theorem inStep_recordedOnce (hseconds : 0 ≤ seconds) :
    InStep [recordedOnce, readAfter seconds] := by
  have hlater : recordedOnce.moment + seconds = (readAfter seconds).moment := rfl
  constructor
  · refine List.pairwise_pair.mpr ?_
    linarith
  · intro before a b after hsplit
    cases before with
    | nil =>
      cases hsplit
      change seconds ≤ _
      linarith
    | cons d before =>
      have hlength := congrArg List.length hsplit
      simp at hlength
      omega

theorem trimming_unseen_day :
    TrimmingUnseen clockPython sampleVelocity {} [recordedOnce, readAfter 86400] := by
  have helapsed : ∀ b ∈ [recordedOnce, readAfter 86400], 0 ≤ b.elapsed := by decide +kernel
  have hstep : InStep [recordedOnce, readAfter 86400] := inStep_recordedOnce (by norm_num)
  refine (trimming_unseen_iff clockPython (noHistory_empty _) helapsed hstep.1
    (fetchable_of_length (by decide))).mpr fun before c after hsplit _ => ?_
  rw [List.append_cons] at hsplit
  have helapsed' : ∀ b ∈ before ++ [c], 0 ≤ b.elapsed := fun b hb =>
    helapsed b (hsplit ▸ List.mem_append_left _ hb)
  have hc : c.moment - largestWindowSeconds < 1000 := by
    have hmem : c ∈ [recordedOnce, readAfter 86400] := by
      rw [hsplit]
      simp
    have hall : ∀ b ∈ [recordedOnce, readAfter 86400],
      b.moment - largestWindowSeconds < 1000 := by decide +kernel
    exact hall c hmem
  refine (keepsWindow_iff_of_inStep helapsed' (hsplit ▸ hstep).left).mpr fun ref r hr hedge => ?_
  rw [moment_of_recordedOnce (by rw [hsplit, List.append_assoc]; rfl) hr] at hedge
  linarith [hedge.2]

theorem trimmed_at_cutoff :
    ¬ TrimmingUnseen clockPython sampleVelocity {} [recordedOnce, readAfter 2592000] ∧
    InStep [recordedOnce, readAfter 2592000] ∧
    ∃ window, answer clockPython sampleVelocity {} [recordedOnce] (readAfter 2592000) =
        .ok window ∧
      window.count largestWindowSeconds {} = .ok 0 ∧
      (historyWindow (readAfter 2592000).moment
        (recordings [recordedOnce, readAfter 2592000])).count largestWindowSeconds {} = .ok 1 := by
  have helapsed : ∀ b ∈ [recordedOnce] ++ [readAfter 2592000], 0 ≤ b.elapsed := by decide +kernel
  have hanswer : answer clockPython sampleVelocity {} [recordedOnce] (readAfter 2592000) =
      .ok (keptWindow clockPython [recordedOnce, readAfter 2592000]
        (readAfter 2592000).moment) := by
    refine (answer_eq_ok_iff (noHistory_empty _) helapsed).mpr ⟨fun t ht => ?_, rfl⟩
    cases ht
  have hnone : (entriesFrom ((readAfter 2592000).moment - largestWindowSeconds)
      (keptWindow clockPython [recordedOnce, readAfter 2592000]
        (readAfter 2592000).moment).entries).length = 0 := by decide +kernel
  have hone : (entriesFrom ((readAfter 2592000).moment - largestWindowSeconds)
      (historyWindow (readAfter 2592000).moment
        (recordings [recordedOnce, readAfter 2592000])).entries).length = 1 := by decide +kernel
  have hseen : (keptWindow clockPython [recordedOnce, readAfter 2592000]
      (readAfter 2592000).moment).count largestWindowSeconds {} = .ok 0 := by
    refine (Window.count_largest _).trans (congrArg (fun n : Nat => Except.ok (n : Int)) hnone)
  have hfull : (historyWindow (readAfter 2592000).moment
      (recordings [recordedOnce, readAfter 2592000])).count largestWindowSeconds {} = .ok 1 := by
    refine (Window.count_largest _).trans (congrArg (fun n : Nat => Except.ok (n : Int)) hone)
  refine ⟨fun h => ?_, inStep_recordedOnce (by norm_num), _, hanswer, hseen, hfull⟩
  have halike := h [recordedOnce] (readAfter 2592000) [] _ rfl hanswer
  have hcount := hseen.symm.trans ((halike "30d" largestWindowSeconds {} rfl).1.trans hfull)
  cases hcount

end ComplyLayer
