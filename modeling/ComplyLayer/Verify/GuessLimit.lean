import ComplyLayer.Dashboard.Throttle
import Mathlib.Data.List.Basic

/-!
# Guess throttling over time

The count of failures and the lockout are one key with one deadline. What the throttle promises
about a run of failing guesses holds as long as no lockout begins while an admitted request is
still to be evaluated, no count that began afresh after a lockout reaches another one, and, after
the cap, the requests in flight are within the free attempts.
-/

namespace ComplyLayer

open Theory Redis

/-- What the throttle is for. -/
structure Throttled (throttle : Throttle) (w : Attack) : Prop where
  outside : ∀ g ∈ w.guesses, g.waiting = some 0
  doubling : ∀ k lockout, w.lockouts[k]? = some lockout →
    lockout.seconds = (min (30 * 2 ^ k) 900 : Int)
  /-- The last lockout lasts as long as it says; Redis rounds what remains of it. -/
  lasting : ∀ lockout, w.lockouts.getLast? = some lockout →
    (throttle.lockoutSeconds w.server = some 0 ↔
      lockout.start + lockout.seconds < w.server.now + 1 / 2)
  limited : ∀ t : ℚ, (w.guesses.filter fun g =>
    g.capped ∧ t ≤ g.moment ∧ g.moment < t + 3600).length ≤ 20

/-- After the cap, a request is admitted while others are in flight only if the free attempts cover
them all. A failure that begins a lockout is counted when no admitted request is still to be
evaluated, and a lockout after the first is reached from the count that reached the one before. The
counter has room. -/
def Guarded (throttle : Throttle) (w : Attack) : AttackStep → Prop
  | .check _ => w.capped →
      w.inFlight = 0 ∨ throttle.failures w.server + w.inFlight + 1 ≤ freeAttempts
  | .count _ => (freeAttempts ≤ throttle.failures w.server → w.admitted = []) ∧
      (throttle.failures w.server = freeAttempts → w.lockouts = []) ∧
      throttle.failures w.server + 1 < 2 ^ 63
  | _ => True

instance (throttle : Throttle) (w : Attack) : DecidablePred (Guarded throttle w)
  | .check _ => inferInstanceAs (Decidable (_ → _ ∨ _))
  | .count _ => inferInstanceAs (Decidable ((_ → _) ∧ (_ → _) ∧ _))
  | .elapse _ | .guess _ _ => .isTrue trivial

/-- The requests of an attack on a server. -/
def Attack.start (server : Server) : Attack := { server := server }

/-! ## What a step does -/

/-- A guarded step, in terms of the failures the key holds. -/
inductive AttackEffect (throttle : Throttle) (w : Attack) (s : Option Failures) :
    Attack → Option Failures → Prop where
  | elapse (seconds : ℚ) (nonneg : 0 ≤ seconds) :
    AttackEffect throttle w s { w with server := w.server.elapse seconds }
      (s.filter fun f => w.server.now + seconds < f.deadline)
  | pass (request : Nat) (admits : Failures.waiting w.server.now s = 0)
      (room : w.capped → w.inFlight = 0 ∨ Failures.countOf s + w.inFlight + 1 ≤ freeAttempts) :
    AttackEffect throttle w s { w with admitted := request :: w.admitted } s
  | refuse : AttackEffect throttle w s w s
  | guess (request : Nat) (server : Server) (now : server.now = w.server.now)
      (admitted : request ∈ w.admitted) :
    AttackEffect throttle w s
      { w with
        server := server
        admitted := w.admitted.erase request
        guessed :=
          { request := request
            moment := w.server.now
            waiting := some (Failures.waiting w.server.now s)
            capped := w.capped } :: w.guessed } s
  | count (guess : Guess) (server : Server) (now : server.now = w.server.now)
      (guessed : guess ∈ w.guessed) (free : Failures.countOf s + 1 ≤ freeAttempts) :
    AttackEffect throttle w s
      { w with
        server := server
        guessed := w.guessed.erase guess
        counted := (guess, ((Failures.countOf s + 1 : Nat) : Int)) :: w.counted }
      (some ⟨Failures.countOf s + 1, w.server.now + attemptWindowSeconds⟩)
  | lock (guess : Guess) (server : Server) (now : server.now = w.server.now)
      (guessed : guess ∈ w.guessed) (beyond : freeAttempts < Failures.countOf s + 1)
      (evaluated : w.admitted = [])
      (first : Failures.countOf s = freeAttempts → w.lockouts = []) :
    AttackEffect throttle w s
      { w with
        server := server
        guessed := w.guessed.erase guess
        counted := (guess, ((Failures.countOf s + 1 : Nat) : Int)) :: w.counted
        lockouts := w.lockouts ++ [⟨w.server.now, lifetime (Failures.countOf s + 1)⟩] }
      (some ⟨Failures.countOf s + 1, w.server.now + lifetime (Failures.countOf s + 1)⟩)

section
variable {throttle : Throttle} {w w' : Attack} {s s' : Option Failures} {a : AttackStep}

theorem waiting_self (n : Nat) (now : ℚ) (h : freeAttempts < n) :
    Failures.waiting now (some ⟨n, now + lifetime n⟩) = lifetime n := by
  have hfloor : (now + lifetime n - now + 1 / 2 : ℚ).floor = lifetime n := by
    refine le_antisymm (Int.lt_add_one_iff.mp (Rat.floor_lt_iff.mpr ?_)) (Rat.le_floor_iff.mpr ?_)
    · rw [Int.cast_add, Int.cast_one]
      linarith
    · linarith
  rw [Failures.waiting, if_neg (Nat.not_le.mpr h), hfloor]
  exact max_eq_right (lifetime_pos n).le

theorem waiting_eq_zero {f : Failures} (h : freeAttempts < f.count) :
    Failures.waiting now (some f) = 0 ↔ f.deadline < now + 1 / 2 := by
  rw [Failures.waiting, if_neg (Nat.not_le.mpr h), max_eq_left_iff, ← Int.lt_add_one_iff,
    Rat.floor_lt_iff]
  constructor
  · intro h
    rw [zero_add, Int.cast_one] at h
    linarith
  · intro h
    rw [zero_add, Int.cast_one]
    linarith

theorem Throttle.reached_free (h : Reads throttle server (some f)) (hfree : f.count ≤ freeAttempts) :
    throttle.reached server = [] := by
  rw [Throttle.reached, h.lockoutSeconds, Failures.waiting, if_pos hfree]
  rfl

theorem Throttle.reached_lock (h : Reads throttle server (some ⟨n, server.now + lifetime n⟩))
    (hover : freeAttempts < n) : throttle.reached server = [⟨server.now, lifetime n⟩] := by
  rw [Throttle.reached, h.lockoutSeconds, waiting_self n server.now hover]
  exact if_pos (lifetime_pos n)

theorem attackStep_count (hreads : Reads throttle w.server s)
    (hroom : (Failures.countOf s : Int) + 1 < 2 ^ 63)
    (hstep : attackStep throttle w (.count request) = some w') :
    ∃ guess ∈ w.guessed, ∃ server, server.now = w.server.now ∧
      Reads throttle server (some ⟨Failures.countOf s + 1,
        w.server.now + lifetime (Failures.countOf s + 1)⟩) ∧
      w' =
        { w with
          server := server
          guessed := w.guessed.erase guess
          counted := (guess, ((Failures.countOf s + 1 : Nat) : Int)) :: w.counted
          lockouts := w.lockouts ++ throttle.reached server } := by
  rw [attackStep] at hstep
  split at hstep
  · cases hstep
  · rename_i guess hguess
    obtain ⟨server, hrecord, hnow, hreads'⟩ := hreads.recordFailure hroom
    rw [hrecord] at hstep
    exact ⟨guess, List.mem_of_find?_eq_some hguess, server, hnow, hreads',
      (Option.some.inj hstep).symm⟩

/-- **What a guarded step does.** -/
theorem attackStep_effect (hreads : Reads throttle w.server s) (hguard : Guarded throttle w a)
    (hstep : attackStep throttle w a = some w') :
    ∃ s', AttackEffect throttle w s w' s' ∧ Reads throttle w'.server s' := by
  cases a with
  | elapse seconds =>
    rw [attackStep] at hstep
    split at hstep
    · rename_i hseconds
      cases hstep
      exact ⟨_, .elapse seconds hseconds, hreads.elapse hseconds⟩
    · cases hstep
  | check request =>
    rw [attackStep] at hstep
    rw [hreads.lockoutSeconds] at hstep
    split at hstep
    · rename_i hadmits
      cases hstep
      have hroom : w.capped →
          w.inFlight = 0 ∨ Failures.countOf s + w.inFlight + 1 ≤ freeAttempts := by
        refine fun hcapped => (hguard hcapped).imp_right fun hroom => ?_
        rw [hreads.failures] at hroom
        exact_mod_cast hroom
      exact ⟨s, .pass request (Option.some.inj hadmits) hroom, hreads⟩
    · cases hstep
      exact ⟨s, .refuse, hreads⟩
  | guess request text =>
    rw [attackStep] at hstep
    rw [hreads.lockoutSeconds] at hstep
    split at hstep
    · rename_i hadmitted
      cases hstep
      exact ⟨s, .guess request _ (throttle.now_evaluate _ _) hadmitted, hreads.evaluate text⟩
    · cases hstep
  | count request =>
    obtain ⟨hevaluated, hfirst, hroom⟩ := hguard
    rw [hreads.failures] at hevaluated hfirst hroom
    obtain ⟨guess, hguess, server, hnow, hreads', rfl⟩ := attackStep_count hreads hroom hstep
    by_cases hfree : Failures.countOf s + 1 ≤ freeAttempts
    · rw [lifetime_of_le hfree] at hreads'
      simp only [Throttle.reached_free hreads' hfree, List.append_nil]
      exact ⟨_, .count guess server hnow hguess hfree, hreads'⟩
    · have hover := Nat.not_le.mp hfree
      rw [← hnow] at hreads'
      simp only [Throttle.reached_lock hreads' hover]
      rw [hnow] at hreads' ⊢
      exact ⟨_, .lock guess server hnow hguess hover
        (hevaluated (Nat.cast_le.mpr (Nat.le_of_lt_succ hover)))
        fun h => hfirst (Nat.cast_inj.mpr h), hreads'⟩

/-! ## The count and the lockouts -/

/-- How the failures the key holds agree with the lockouts reached. -/
structure Locking (w : Attack) (s : Option Failures) : Prop where
  admits : w.admitted ≠ [] → Failures.waiting w.server.now s = 0
  doubling : ∀ k lockout, w.lockouts[k]? = some lockout →
    lockout.seconds = (min (30 * 2 ^ k) 900 : Int)
  locked : ∀ f, s = some f → freeAttempts < f.count →
    f.count = freeAttempts + w.lockouts.length ∧
      w.lockouts.getLast? = some ⟨f.deadline - lifetime f.count, lifetime f.count⟩
  released : Failures.countOf s ≤ freeAttempts → ∀ lockout, w.lockouts.getLast? = some lockout →
    lockout.start + lockout.seconds ≤ w.server.now

theorem waiting_elapse (h : Failures.waiting now s = 0) (hseconds : 0 ≤ seconds) :
    Failures.waiting (now + seconds) s = 0 := by
  cases s with
  | none => rfl
  | some f =>
    rcases Nat.lt_or_ge freeAttempts f.count with hover | hfree
    · rw [waiting_eq_zero hover] at h ⊢
      linarith
    · rw [Failures.waiting, if_pos hfree]

theorem getElem?_concat_law {law : Nat → Int} {lockouts : List Lockout}
    (h : ∀ k lockout, lockouts[k]? = some lockout → lockout.seconds = law k)
    (hnew : new.seconds = law lockouts.length) :
    ∀ k lockout, (lockouts ++ [new])[k]? = some lockout → lockout.seconds = law k := by
  intro k lockout hk
  rcases Nat.lt_trichotomy k lockouts.length with hlt | rfl | hgt
  · rw [List.getElem?_append_left hlt] at hk
    exact h k lockout hk
  · rw [List.getElem?_concat_length] at hk
    cases hk
    exact hnew
  · rw [List.getElem?_eq_none (by rw [List.length_append, List.length_singleton]; exact hgt)] at hk
    cases hk

theorem Locking.effect (h : Locking w s) (heffect : AttackEffect throttle w s w' s') :
    Locking w' s' := by
  cases heffect with
  | elapse seconds nonneg =>
    have hreleased (hfree : Failures.countOf s ≤ freeAttempts) (lockout : Lockout)
        (hlast : w.lockouts.getLast? = some lockout) :
        lockout.start + lockout.seconds ≤ w.server.now + seconds :=
      (h.released hfree lockout hlast).trans (le_add_of_nonneg_right nonneg)
    cases s with
    | none => exact ⟨fun _ => rfl, h.doubling, h.locked, hreleased⟩
    | some f =>
      rw [Option.filter_some]
      split
      · exact ⟨fun hadmitted => waiting_elapse (h.admits hadmitted) nonneg, h.doubling, h.locked,
          hreleased⟩
      · -- The key is gone, and with it the lockout.
        rename_i hgone
        have hdeadline : f.deadline ≤ w.server.now + seconds :=
          not_lt.mp fun hlive => hgone (decide_eq_true hlive)
        refine ⟨fun _ => rfl, h.doubling, fun _ hf => (by cases hf), fun _ lockout hlast => ?_⟩
        rcases Nat.lt_or_ge freeAttempts f.count with hover | hfree
        · rw [(h.locked f rfl hover).2] at hlast
          cases hlast
          rw [sub_add_cancel]
          exact hdeadline
        · exact hreleased hfree lockout hlast
  | pass request admits room => exact ⟨fun _ => admits, h.doubling, h.locked, h.released⟩
  | refuse => exact h
  | guess request server now admitted =>
    refine ⟨fun _ => ?_, h.doubling, h.locked, fun hfree lockout hlast => ?_⟩
    · rw [now]
      exact h.admits (List.ne_nil_of_mem admitted)
    · rw [now]
      exact h.released hfree lockout hlast
  | count guess server now guessed free =>
    refine ⟨fun _ => ?_, h.doubling, fun f hf hover => ?_, fun _ lockout hlast => ?_⟩
    · rw [Failures.waiting, if_pos free]
    · cases hf
      exact absurd free (Nat.not_le.mpr hover)
    · rw [now]
      exact h.released (Nat.le_of_succ_le free) lockout hlast
  | lock guess server now guessed beyond evaluated first =>
    have hcount : Failures.countOf s = freeAttempts + w.lockouts.length := by
      rcases Nat.lt_or_ge freeAttempts (Failures.countOf s) with hover | hfree
      · cases s with
        | none => cases hover
        | some f => exact (h.locked f rfl hover).1
      · have hfree : Failures.countOf s = freeAttempts := by omega
        rw [first hfree, hfree]
        rfl
    refine ⟨fun hadmitted => absurd evaluated hadmitted, getElem?_concat_law h.doubling ?_,
      fun f hf _ => ?_, fun hfree => absurd hfree (Nat.not_le.mpr beyond)⟩
    · rw [lifetime_of_lt beyond, hcount]
      have hover : freeAttempts + w.lockouts.length + 1 - freeAttempts - 1 = w.lockouts.length := by
        omega
      rw [hover]
      rfl
    · cases hf
      refine ⟨?_, ?_⟩
      · rw [List.length_append, List.length_singleton, hcount, Nat.add_assoc]
      · rw [List.getLast?_concat, add_sub_cancel_right]

/-! ## The guesses of an hour -/

/-- Counted in a lockout's key, after the cap was reached. -/
def Spent (c : Guess × Int) : Bool := c.1.capped && decide (freeAttempts < c.2)

/-- Counted within the free attempts, after the cap was reached, and evaluated in the last hour. -/
def Afresh (now : ℚ) (c : Guess × Int) : Bool :=
  c.1.capped && decide (c.2 ≤ freeAttempts) && decide (now - 3600 < c.1.moment)

/-- At most one request is in flight, or the free attempts cover those that are, or none of them is
evaluated after the cap. -/
def Flight (w : Attack) (s : Option Failures) : Prop :=
  w.inFlight ≤ 1 ∨ Failures.countOf s + w.inFlight ≤ freeAttempts ∨
    (w.capped → w.admitted = []) ∧ ∀ g ∈ w.guessed, g.capped = false

/-- When the guesses were evaluated. -/
structure Guessing (w : Attack) (s : Option Failures) : Prop where
  flight : Flight w s
  past : ∀ g ∈ w.guesses, g.moment ≤ w.server.now
  settled : ∀ f, s = some f → ∀ c ∈ w.counted, c.1.moment ≤ f.deadline - lifetime f.count
  pending : ∀ f, s = some f → freeAttempts < f.count →
    ∀ g ∈ w.guessed, g.capped → f.deadline - 1 / 2 < g.moment
  outside : ∀ g ∈ w.guesses, g.waiting = some 0
  capped : ∀ g ∈ w.guesses, g.capped → w.capped
  unlocked : freeAttempts < Failures.countOf s → ∀ c ∈ w.counted, c.1.capped → freeAttempts < c.2
  afresh : (w.counted.filter (Afresh w.server.now)).length ≤ Failures.countOf s
  spaced : (w.counted.filter Spent).Pairwise fun c d => d.1.moment + 1799 / 2 ≤ c.1.moment
  limited : ∀ t : ℚ, (w.guesses.filter fun g =>
    g.capped ∧ t ≤ g.moment ∧ g.moment < t + 3600).length ≤ 20

theorem mem_guesses_of_counted (h : c ∈ w.counted) : c.1 ∈ w.guesses :=
  List.mem_append_right _ (List.mem_map_of_mem h)

/-- Moments that keep a distance fill the time they lie in. -/
theorem length_mul_lt_of_spaced {moments : List ℚ} {lo hi d : ℚ}
    (hspaced : moments.Pairwise fun x y => y + d ≤ x)
    (hbetween : ∀ x ∈ moments, lo < x ∧ x ≤ hi) (hroom : lo < hi + d) :
    moments.length * d < hi + d - lo := by
  induction moments generalizing hi with
  | nil =>
    rw [List.length_nil, Nat.cast_zero, zero_mul]
    linarith
  | cons x rest ih =>
    obtain ⟨hx, hrest⟩ := List.pairwise_cons.mp hspaced
    obtain ⟨hbefore, hbetween⟩ := List.forall_mem_cons.mp hbetween
    have hearlier := ih hrest (fun y hy => ⟨(hbetween y hy).1, le_sub_iff_add_le.mpr (hx y hy)⟩)
      (by linarith)
    rw [List.length_cons, Nat.cast_succ]
    linarith

theorem Guessing.spent_length (h : Guessing w s) :
    ((w.counted.filter Spent).filter fun c => w.server.now - 3600 < c.1.moment).length ≤ 5 := by
  have hspaced : (((w.counted.filter Spent).filter fun c =>
      w.server.now - 3600 < c.1.moment).map fun c => c.1.moment).Pairwise
        fun x y => y + 1799 / 2 ≤ x :=
    List.pairwise_map.mpr (h.spaced.filter _)
  have hbetween : ∀ x ∈ ((w.counted.filter Spent).filter fun c =>
      w.server.now - 3600 < c.1.moment).map fun c => c.1.moment,
        w.server.now - 3600 < x ∧ x ≤ w.server.now := by
    intro x hx
    obtain ⟨c, hc, rfl⟩ := List.mem_map.mp hx
    obtain ⟨hc, hrecent⟩ := List.mem_filter.mp hc
    have hcounted := List.mem_of_mem_filter hc
    exact ⟨of_decide_eq_true hrecent, h.past c.1 (mem_guesses_of_counted hcounted)⟩
  have hlength := length_mul_lt_of_spaced hspaced hbetween (by linarith)
  rw [List.length_map] at hlength
  by_contra hmany
  have hsix : (6 : ℚ) ≤ ((w.counted.filter Spent).filter fun c =>
      w.server.now - 3600 < c.1.moment).length := by
    exact_mod_cast Nat.not_le.mp hmany
  linarith

theorem Guessing.afresh_length (h : Guessing w s) :
    (w.counted.filter (Afresh w.server.now)).length ≤ freeAttempts := by
  rcases Nat.lt_or_ge freeAttempts (Failures.countOf s) with hover | hfree
  · have hnone : w.counted.filter (Afresh w.server.now) = [] := by
      refine List.filter_eq_nil_iff.mpr fun c hc hafresh => ?_
      simp only [Afresh, Bool.and_eq_true, decide_eq_true_eq] at hafresh
      exact absurd hafresh.1.2 (not_le.mpr (h.unlocked hover c hc hafresh.1.1))
    rw [hnone]
    exact Nat.zero_le _
  · exact h.afresh.trans hfree

/-- Evaluated after the cap, and in the last hour. -/
def Recent (now : ℚ) (g : Guess) : Bool := g.capped && decide (now - 3600 < g.moment)

theorem Guessing.guessed_length (h : Guessing w s) :
    (w.guessed.filter (Recent w.server.now)).length ≤ 5 := by
  have hlength := List.length_filter_le (Recent w.server.now) w.guessed
  have hle : w.guessed.length ≤ w.inFlight := Nat.le_add_left _ _
  have hfree : freeAttempts = 5 := rfl
  rcases h.flight with hone | hroom | ⟨-, huncapped⟩
  · omega
  · omega
  · have hnone : w.guessed.filter (Recent w.server.now) = [] := by
      refine List.filter_eq_nil_iff.mpr fun g hg hrecent => ?_
      rw [Recent, huncapped g hg] at hrecent
      cases hrecent
    rw [hnone]
    exact Nat.zero_le _

theorem Guessing.counted_length (h : Guessing w s) :
    (w.counted.filter fun c => Recent w.server.now c.1).length ≤ 10 := by
  have hafresh : ((w.counted.filter fun c => Recent w.server.now c.1).filter fun c =>
      decide (c.2 ≤ (freeAttempts : Int))) = w.counted.filter (Afresh w.server.now) := by
    rw [List.filter_filter]
    refine List.filter_congr fun c _ => Bool.eq_iff_iff.mpr ?_
    simp only [Recent, Afresh, Bool.and_eq_true, decide_eq_true_eq]
    tauto
  have hspent : ((w.counted.filter fun c => Recent w.server.now c.1).filter fun c =>
      !decide (c.2 ≤ (freeAttempts : Int))) =
        (w.counted.filter Spent).filter fun c => w.server.now - 3600 < c.1.moment := by
    rw [List.filter_filter, List.filter_filter]
    refine List.filter_congr fun c _ => Bool.eq_iff_iff.mpr ?_
    simp only [Recent, Spent, Bool.and_eq_true, Bool.not_eq_true', decide_eq_true_eq,
      decide_eq_false_iff_not, not_le]
    tauto
  have hfree : freeAttempts = 5 := rfl
  rw [List.length_eq_length_filter_add fun c => decide (c.2 ≤ (freeAttempts : Int)), hafresh,
    hspent]
  exact Nat.add_le_add (hfree ▸ h.afresh_length) h.spent_length

/-- After the cap, an hour holds at most five guesses counted in a lockout's key, five counted
afresh, and five in flight. -/
theorem Guessing.recent (h : Guessing w s) :
    (w.guesses.filter (Recent w.server.now)).length ≤ 15 := by
  have hcounted : (w.counted.filter (Recent w.server.now ∘ Prod.fst)).length ≤ 10 :=
    h.counted_length
  rw [Attack.guesses, List.filter_append, List.length_append, List.filter_map, List.length_map]
  exact Nat.add_le_add h.guessed_length hcounted

theorem length_filter_cons_le (p : α → Bool) (x : α) (xs : List α) :
    ((x :: xs).filter p).length ≤ (xs.filter p).length + 1 := by
  rw [List.filter_cons]
  split
  · exact le_refl _
  · exact Nat.le_succ _

/-- Counting a guess keeps what was evaluated. -/
theorem guesses_counted (h : g ∈ w.guessed) (n : Int) :
    (w.guessed.erase g ++ ((g, n) :: w.counted).map Prod.fst).Perm w.guesses := by
  rw [List.map_cons, Attack.guesses]
  refine List.perm_middle.trans ?_
  rw [← List.cons_append]
  exact (List.perm_cons_erase h).symm.append_right _

theorem six_le_of_capped (h : Locking w s) (hcapped : w.capped) : 6 ≤ w.lockouts.length := by
  obtain ⟨lockout, hmem, hseconds⟩ := List.any_eq_true.mp hcapped
  obtain ⟨k, hk, hget⟩ := List.getElem_of_mem hmem
  have hlaw := h.doubling k lockout (by rw [List.getElem?_eq_getElem hk, hget])
  by_contra hfew
  have hpower : (2 : Int) ^ k ≤ 2 ^ 4 := pow_le_pow_right₀ (by decide) (by omega)
  have hle := min_le_left (30 * (2 : Int) ^ k) 900
  have hcap : lockout.seconds = 900 := of_decide_eq_true hseconds
  rw [← hlaw, hcap] at hle
  linarith

/-- The eleventh failure in a row is the first to reach the cap. -/
theorem lifetime_of_capped (h : 11 ≤ n) : lifetime n = maxLockoutSeconds := by
  have hover : freeAttempts < n := Nat.lt_of_lt_of_le (by decide) h
  have hpower : (2 : Int) ^ 5 ≤ 2 ^ (n - freeAttempts - 1) :=
    pow_le_pow_right₀ (by decide) (by have : freeAttempts = 5 := rfl; omega)
  have hbase : baseLockoutSeconds = 30 := rfl
  have hmax : maxLockoutSeconds = 900 := rfl
  rw [lifetime_of_lt hover, min_eq_right]
  rw [hbase, hmax]
  linarith

/-- A guess that is counted is in flight no longer. -/
theorem inFlight_erase (h : g ∈ w.guessed) :
    w.admitted.length + (w.guessed.erase g).length + 1 = w.inFlight := by
  have hpos := List.length_pos_of_mem h
  rw [List.length_erase_of_mem h, Attack.inFlight]
  omega

theorem Flight.effect (h : Flight w s) (hcapped : ∀ g ∈ w.guesses, g.capped → w.capped)
    (heffect : AttackEffect throttle w s w' s') : Flight w' s' := by
  cases heffect with
  | elapse seconds nonneg =>
    refine h.imp_right (Or.imp_left fun hroom => ?_)
    cases s with
    | none => exact hroom
    | some f =>
      rw [Option.filter_some]
      split
      · exact hroom
      · exact (Nat.add_le_add_right (Nat.zero_le _) _).trans hroom
  | pass request admits room =>
    have hflight : (request :: w.admitted).length + w.guessed.length = w.inFlight + 1 := by
      rw [List.length_cons, Attack.inFlight]
      omega
    cases hw : w.capped with
    | true =>
      rcases room hw with hidle | hroom
      · exact .inl (by rw [Attack.inFlight, hflight, hidle])
      · exact .inr (.inl (by rw [Attack.inFlight, hflight]; exact hroom))
    | false =>
      refine .inr (.inr ⟨fun hw' => ?_, fun g hg => ?_⟩)
      · cases hw.symm.trans hw'
      · exact Bool.eq_false_iff.mpr fun hg' =>
          Bool.eq_false_iff.mp hw (hcapped g (List.mem_append_left _ hg) hg')
  | refuse => exact h
  | guess request server now admitted =>
    have hpos := List.length_pos_of_mem admitted
    have hflight : (w.admitted.erase request).length + (w.guessed.length + 1) = w.inFlight := by
      rw [List.length_erase_of_mem admitted, Attack.inFlight]
      omega
    rcases h with hone | hroom | ⟨hidle, huncapped⟩
    · exact .inl (by rw [Attack.inFlight, List.length_cons, hflight]; exact hone)
    · exact .inr (.inl (by rw [Attack.inFlight, List.length_cons, hflight]; exact hroom))
    · have hw : w.capped = false :=
        Bool.eq_false_iff.mpr fun hw => List.ne_nil_of_mem admitted (hidle hw)
      refine .inr (.inr ⟨fun hw' => ?_, List.forall_mem_cons.mpr ⟨hw, huncapped⟩⟩)
      cases hw.symm.trans hw'
  | count guess server now guessed free =>
    have hflight := inFlight_erase guessed
    rcases h with hone | hroom | ⟨hidle, huncapped⟩
    · exact .inl (by rw [Attack.inFlight]; exact (Nat.le_succ _).trans (hflight.trans_le hone))
    · refine .inr (.inl ?_)
      change Failures.countOf s + 1 + (w.admitted.length + (w.guessed.erase guess).length) ≤
        freeAttempts
      omega
    · exact .inr (.inr ⟨hidle, fun g hg => huncapped g (List.mem_of_mem_erase hg)⟩)
  | lock guess server now guessed beyond evaluated first =>
    have hflight := inFlight_erase guessed
    rcases h with hone | hroom | ⟨-, huncapped⟩
    · exact .inl (by rw [Attack.inFlight]; exact (Nat.le_succ _).trans (hflight.trans_le hone))
    · omega
    · exact .inr (.inr ⟨fun _ => evaluated, fun g hg => huncapped g (List.mem_of_mem_erase hg)⟩)

/-- A guess evaluated after the cap is the only one in flight when a lockout begins. -/
theorem Flight.alone (h : Flight w s) (hguess : g ∈ w.guessed) (hcapped : g.capped)
    (hover : freeAttempts < Failures.countOf s + 1) : w.guessed.length ≤ 1 := by
  have hpos := List.length_pos_of_mem hguess
  have hle : w.guessed.length ≤ w.inFlight := Nat.le_add_left _ _
  rcases h with hone | hroom | ⟨-, huncapped⟩
  · omega
  · omega
  · cases hcapped.symm.trans (huncapped g hguess)

theorem Guessing.effect (h : Guessing w s) (hlocking : Locking w s)
    (heffect : AttackEffect throttle w s w' s') : Guessing w' s' := by
  have hflight := h.flight.effect h.capped heffect
  cases heffect with
  | elapse seconds nonneg =>
    have hpast : ∀ g ∈ w.guesses, g.moment ≤ w.server.now + seconds := fun g hg =>
      (h.past g hg).trans (le_add_of_nonneg_right nonneg)
    have hafresh : (w.counted.filter (Afresh (w.server.now + seconds))).length ≤
        (w.counted.filter (Afresh w.server.now)).length := by
      refine (List.monotone_filter_right _ fun c hc => ?_).length_le
      simp only [Afresh, Bool.and_eq_true, decide_eq_true_eq] at hc ⊢
      exact ⟨hc.1, by linarith [hc.2]⟩
    cases s with
    | none =>
      exact ⟨hflight, hpast, h.settled, h.pending, h.outside, h.capped, h.unlocked, hafresh.trans h.afresh,
        h.spaced, h.limited⟩
    | some f =>
      rw [Option.filter_some] at hflight ⊢
      by_cases hlive : w.server.now + seconds < f.deadline
      · rw [if_pos (decide_eq_true hlive)] at hflight ⊢
        exact ⟨hflight, hpast, h.settled, h.pending, h.outside, h.capped, h.unlocked,
          hafresh.trans h.afresh, h.spaced, h.limited⟩
      · rw [if_neg fun h => hlive (of_decide_eq_true h)] at hflight ⊢
        have hdeadline : f.deadline ≤ w.server.now + seconds := not_lt.mp hlive
        -- What was counted under the key is an hour old, or it was a lockout's key.
        have hnone : w.counted.filter (Afresh (w.server.now + seconds)) = [] := by
          refine List.filter_eq_nil_iff.mpr fun c hc hafresh => ?_
          simp only [Afresh, Bool.and_eq_true, decide_eq_true_eq] at hafresh
          obtain ⟨⟨hcapped, hfree⟩, hrecent⟩ := hafresh
          rcases Nat.lt_or_ge freeAttempts f.count with hover | hcount
          · exact absurd hfree (not_le.mpr (h.unlocked hover c hc hcapped))
          · have hsettled := h.settled f rfl c hc
            have hlifetime : ((lifetime f.count : Int) : ℚ) = 3600 := by
              rw [lifetime_of_le hcount]
              norm_num [attemptWindowSeconds]
            linarith
        refine ⟨hflight, hpast, fun _ hf => (by cases hf), fun _ hf => (by cases hf), h.outside,
          h.capped, fun hover => absurd hover (Nat.not_lt_zero _), (congrArg List.length hnone).le, h.spaced,
          h.limited⟩
  | pass request admits room =>
    exact ⟨hflight, h.past, h.settled, h.pending, h.outside, h.capped, h.unlocked, h.afresh, h.spaced,
      h.limited⟩
  | refuse => exact h
  | guess request server now admitted =>
    have hadmits := hlocking.admits (List.ne_nil_of_mem admitted)
    refine ⟨hflight, ?_, h.settled, ?_, ?_, ?_, h.unlocked, ?_, h.spaced, fun t => ?_⟩
    · rw [now]
      exact List.forall_mem_cons.mpr ⟨le_refl _, h.past⟩
    · intro f hf hover
      refine List.forall_mem_cons.mpr ⟨fun _ => ?_, h.pending f hf hover⟩
      rw [hf, waiting_eq_zero hover] at hadmits
      linarith
    · exact List.forall_mem_cons.mpr ⟨congrArg some hadmits, h.outside⟩
    · exact List.forall_mem_cons.mpr ⟨fun hw => hw, h.capped⟩
    · rw [now]
      exact h.afresh
    · by_cases hspan : t ≤ w.server.now ∧ w.server.now < t + 3600
      · -- What lies in the span with this guess was evaluated in the last hour.
        have hrecent := h.recent
        have hsub : (w.guesses.filter fun g =>
            decide (g.capped ∧ t ≤ g.moment ∧ g.moment < t + 3600)).length ≤
              (w.guesses.filter (Recent w.server.now)).length := by
          refine (List.monotone_filter_right _ fun g hg => ?_).length_le
          obtain ⟨hcapped, hlow, -⟩ := of_decide_eq_true hg
          have hrecent : w.server.now - 3600 < g.moment := by linarith [hspan.2]
          exact Bool.and_eq_true_iff.mpr ⟨hcapped, decide_eq_true hrecent⟩
        exact (length_filter_cons_le _ _ _).trans
          ((Nat.succ_le_succ (hsub.trans hrecent)).trans (by decide))
      · refine le_trans (le_of_eq ?_) (h.limited t)
        refine congrArg List.length (List.filter_cons_of_neg fun hg => hspan ?_)
        exact (of_decide_eq_true hg).2
  | count guess server now guessed free =>
    have hperm := guesses_counted guessed ((Failures.countOf s + 1 : Nat) : Int)
    have hpast := fun g hg => h.past g (hperm.mem_iff.mp hg)
    refine ⟨hflight, ?_, ?_, ?_, fun g hg => h.outside g (hperm.mem_iff.mp hg),
      fun g hg => h.capped g (hperm.mem_iff.mp hg), ?_, ?_, ?_, fun t => ?_⟩
    · rw [now]
      exact hpast
    · intro f hf c hc
      cases hf
      rw [lifetime_of_le free, add_sub_cancel_right]
      exact hpast c.1 (List.mem_append_right _ (List.mem_map_of_mem hc))
    · intro f hf hover
      cases hf
      exact absurd free (Nat.not_le.mpr hover)
    · intro hover
      exact absurd free (Nat.not_le.mpr hover)
    · rw [now]
      exact (length_filter_cons_le _ _ _).trans (Nat.succ_le_succ h.afresh)
    · have hnot : ¬ Spent (guess, ((Failures.countOf s + 1 : Nat) : Int)) = true := fun hspent => by
        simp only [Spent, Bool.and_eq_true, decide_eq_true_eq, Nat.cast_lt] at hspent
        exact absurd free (Nat.not_le.mpr hspent.2)
      rw [List.filter_cons_of_neg hnot]
      exact h.spaced
    · exact (hperm.filter _).length_eq.trans_le (h.limited t)
  | lock guess server now guessed beyond evaluated first =>
    have hperm := guesses_counted guessed ((Failures.countOf s + 1 : Nat) : Int)
    have hpast := fun g hg => h.past g (hperm.mem_iff.mp hg)
    -- After the cap, a lockout's key is followed by the next one's.
    have hover : ∀ g ∈ w.guesses, g.capped = true →
        freeAttempts < Failures.countOf s ∧ 11 ≤ Failures.countOf s := by
      intro g hg hcapped
      have hlength := six_le_of_capped hlocking (h.capped g hg hcapped)
      rcases Nat.lt_or_ge freeAttempts (Failures.countOf s) with hover | hfree
      · cases s with
        | none => cases hover
        | some f =>
          refine ⟨hover, ?_⟩
          have hcount : f.count = 5 + w.lockouts.length := (hlocking.locked f rfl hover).1
          have hmany : 11 ≤ f.count := hcount ▸ Nat.add_le_add_left hlength 5
          exact hmany
      · have hnone := first (by omega)
        rw [hnone] at hlength
        cases hlength
    refine ⟨hflight, ?_, ?_, ?_, fun g hg => h.outside g (hperm.mem_iff.mp hg),
      fun g hg hcapped => ?_, ?_, ?_, ?_, fun t => ?_⟩
    · rw [now]
      exact hpast
    · intro f hf c hc
      cases hf
      rw [add_sub_cancel_right]
      exact hpast c.1 (List.mem_append_right _ (List.mem_map_of_mem hc))
    · intro f hf _ g hg hcapped
      have hpos : 0 < (w.guessed.erase guess).length := List.length_pos_of_mem hg
      have halone := h.flight.alone (List.mem_of_mem_erase hg) hcapped beyond
      rw [List.length_erase_of_mem guessed] at hpos
      omega
    · have hw := h.capped g (hperm.mem_iff.mp hg) hcapped
      rw [Attack.capped, List.any_append]
      exact Bool.or_eq_true_iff.mpr (.inl hw)
    · intro _
      refine List.forall_mem_cons.mpr ⟨fun _ => Nat.cast_lt.mpr beyond, fun c hc hcapped => ?_⟩
      exact h.unlocked (hover c.1 (mem_guesses_of_counted hc) hcapped).1 c hc hcapped
    · have hnot : ¬ Afresh w.server.now (guess, ((Failures.countOf s + 1 : Nat) : Int)) = true :=
        fun hafresh => by
          simp only [Afresh, Bool.and_eq_true, decide_eq_true_eq, Nat.cast_le] at hafresh
          exact absurd beyond (Nat.not_lt.mpr hafresh.1.2)
      rw [now, List.filter_cons_of_neg hnot]
      exact h.afresh.trans (Nat.le_succ _)
    · cases hcapped : guess.capped with
      | false =>
        rw [List.filter_cons_of_neg (by simp [Spent, hcapped])]
        exact h.spaced
      | true =>
        obtain ⟨hlocked, hcount⟩ := hover guess (List.mem_append_left _ guessed) hcapped
        rw [List.filter_cons]
        split
        · refine List.pairwise_cons.mpr ⟨fun c hc => ?_, h.spaced⟩
          cases s with
          | none => cases hlocked
          | some f =>
            have hsettled := h.settled f rfl c (List.mem_of_mem_filter hc)
            have hpending := h.pending f rfl hlocked guess guessed hcapped
            have hmany : 11 ≤ f.count := hcount
            have hlifetime : ((lifetime f.count : Int) : ℚ) = 900 := by
              rw [lifetime_of_capped hmany]
              rfl
            linarith
        · exact h.spaced
    · exact (hperm.filter _).length_eq.trans_le (h.limited t)

end

/-! ## Whole runs -/

section
variable {throttle : Throttle} {w w' : Attack} {server : Server} {steps : List AttackStep}

/-- The server, the lockouts and the guesses agree. -/
def AttackInvariant (throttle : Throttle) (w : Attack) : Prop :=
  ∃ s, Reads throttle w.server s ∧ Locking w s ∧ Guessing w s

theorem AttackInvariant.step (h : AttackInvariant throttle w) (hguard : Guarded throttle w a)
    (hstep : attackStep throttle w a = some w') : AttackInvariant throttle w' := by
  obtain ⟨s, hreads, hlocking, hguessing⟩ := h
  obtain ⟨s', heffect, hreads'⟩ := attackStep_effect hreads hguard hstep
  exact ⟨s', hreads', hlocking.effect heffect, hguessing.effect hlocking heffect⟩

theorem AttackInvariant.start (h : server.find? throttle.key = none) :
    AttackInvariant throttle (.start server) :=
  ⟨none, h,
    { admits := fun _ => rfl
      doubling := fun _ _ hk => by cases hk
      locked := fun _ hf => by cases hf
      released := fun _ _ hlast => by cases hlast },
    { flight := .inl (Nat.zero_le 1)
      past := fun _ hg => by cases hg
      settled := fun _ hf => by cases hf
      pending := fun _ hf => by cases hf
      outside := fun _ hg => by cases hg
      capped := fun _ hg => by cases hg
      unlocked := fun hover => absurd hover (Nat.not_lt_zero _)
      afresh := le_refl 0
      spaced := .nil
      limited := fun _ => Nat.zero_le _ }⟩

theorem AttackInvariant.throttled (h : AttackInvariant throttle w) : Throttled throttle w := by
  obtain ⟨s, hreads, hlocking, hguessing⟩ := h
  refine ⟨hguessing.outside, hlocking.doubling, fun lockout hlast => ?_, hguessing.limited⟩
  rw [hreads.lockoutSeconds, Option.some.injEq]
  rcases Nat.lt_or_ge freeAttempts (Failures.countOf s) with hover | hfree
  · cases s with
    | none => cases hover
    | some f =>
      rw [(hlocking.locked f rfl hover).2] at hlast
      cases hlast
      rw [waiting_eq_zero hover, sub_add_cancel]
  · have hreleased := hlocking.released hfree lockout hlast
    have hwaiting : Failures.waiting w.server.now s = 0 := by
      cases s with
      | none => rfl
      | some f => exact if_pos hfree
    exact ⟨fun _ => by linarith, fun _ => hwaiting⟩

/-- **Guess throttling over time.** In every guarded run of failing guesses from a server that
holds no failures, however the steps of the requests interleave, a guess is evaluated only outside
a lockout, each lockout lasts twice as long as the one before, up to the cap, and after the cap an
hour holds at most twenty guesses. -/
theorem throttled_run (hnew : server.find? throttle.key = none)
    (hguard : Along (attackStep throttle) (Guarded throttle) (.start server) steps)
    (hrun : run (attackStep throttle) (.start server) steps = some w) : Throttled throttle w := by
  have hinvariant : AttackInvariant throttle w :=
    hguard.invariant (fun _ _ _ h hg hs => h.step hg hs) (.start hnew) hrun
  exact hinvariant.throttled

/-- The second condition of the guard is exact: a lockout from a count that began afresh is as
short as the first. -/
theorem not_throttled_of_afresh (hreads : Reads throttle w.server s)
    (hcount : Failures.countOf s = freeAttempts) (hlockouts : w.lockouts ≠ [])
    (hstep : attackStep throttle w (.count request) = some w') : ¬ Throttled throttle w' := by
  intro h
  obtain ⟨guess, -, server, hnow, hreads', rfl⟩ :=
    attackStep_count hreads (by rw [hcount]; decide) hstep
  rw [hcount, ← hnow] at hreads'
  have hreached := Throttle.reached_lock hreads' (Nat.lt_succ_self freeAttempts)
  have hlaw := h.doubling w.lockouts.length ⟨server.now, lifetime (freeAttempts + 1)⟩
    (by rw [hreached, List.getElem?_concat_length])
  have hpower : (2 : Int) ^ 1 ≤ 2 ^ w.lockouts.length :=
    pow_le_pow_right₀ (by decide) (List.length_pos_iff.mpr hlockouts)
  have hthirty : lifetime (freeAttempts + 1) = 30 := rfl
  have hsixty : (60 : Int) ≤ min (30 * 2 ^ w.lockouts.length) 900 :=
    le_min (by linarith) (by decide)
  have hle : (60 : Int) ≤ lifetime (freeAttempts + 1) := hsixty.trans hlaw.ge
  rw [hthirty] at hle
  exact absurd hle (by decide)

end

/-! Six wrong codes, a wait, and six more; and two requests that pass their checks together. -/

def sampleThrottle : Throttle where
  digest text :=
    if text = "7" then "7902699be42c8a8e46fbbb4501726517" else "6acceddddf2719a4af5410bcd29fd3d3"
  view := .verify
  identity := "7"

/-- A request whose steps follow each other. -/
def wrongCode (request : Nat) : List AttackStep :=
  [.check request, .guess request "000000", .count request]

/-- Six failures, and the next one in the half second that is rounded off the lockout. -/
def roundedAttack : List AttackStep :=
  (List.range 6).flatMap wrongCode ++ .elapse (119 / 4) :: wrongCode 6

theorem throttled_rounded : ∃ w,
    run (attackStep sampleThrottle) (.start {}) roundedAttack = some w ∧
      w.lockouts = [⟨0, 30⟩, ⟨119 / 4, 60⟩] ∧ Throttled sampleThrottle w := by
  have hlockouts : (run (attackStep sampleThrottle) (.start {}) roundedAttack).map
      Attack.lockouts = some [⟨0, 30⟩, ⟨119 / 4, 60⟩] := by decide +kernel
  obtain ⟨w, hrun, hw⟩ := Option.map_eq_some_iff.mp hlockouts
  exact ⟨w, hrun, hw, throttled_run rfl (by decide +kernel) hrun⟩

/-- Six failures, a wait until after the lockout, and six more. -/
def patientAttack : List AttackStep :=
  (List.range 6).flatMap wrongCode ++ .elapse 31 :: (List.range 6).flatMap wrongCode

/-- Five failures, and two requests of which one is counted before the other is evaluated. -/
def parallelAttack : List AttackStep :=
  (List.range 5).flatMap wrongCode ++
    [.check 5, .check 6, .guess 5 "000000", .count 5, .guess 6 "000000"]

theorem not_throttled :
    (∃ w, run (attackStep sampleThrottle) (.start {}) patientAttack = some w ∧
      w.lockouts = [⟨0, 30⟩, ⟨31, 30⟩] ∧ ¬ Throttled sampleThrottle w) ∧
    ∃ w, run (attackStep sampleThrottle) (.start {}) parallelAttack = some w ∧
      w.guessed = [⟨6, 0, some 30, false⟩] ∧ ¬ Throttled sampleThrottle w := by
  have hpatient : (run (attackStep sampleThrottle) (.start {}) patientAttack).map
      Attack.lockouts = some [⟨0, 30⟩, ⟨31, 30⟩] := by decide +kernel
  have hparallel : (run (attackStep sampleThrottle) (.start {}) parallelAttack).map
      Attack.guessed = some [⟨6, 0, some 30, false⟩] := by decide +kernel
  obtain ⟨w, hrun, hw⟩ := Option.map_eq_some_iff.mp hpatient
  obtain ⟨w', hrun', hw'⟩ := Option.map_eq_some_iff.mp hparallel
  refine ⟨⟨w, hrun, hw, fun h => ?_⟩, w', hrun', hw', fun h => ?_⟩
  · have hsecond := h.doubling 1 ⟨31, 30⟩ (by rw [hw]; rfl)
    cases hsecond
  · have houtside := h.outside ⟨6, 0, some 30, false⟩
      (List.mem_append_left _ (by rw [hw']; exact List.mem_cons_self))
    cases houtside

end ComplyLayer
