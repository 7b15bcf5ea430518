import ComplyLayer.Partitions
import ComplyLayer.Theory.Outcomes
import ComplyLayer.Theory.Runs
import Mathlib.Data.Nat.ModEq

/-!
# What partition maintenance covers

Every partition is the month its name says, so what is missing can be created unless the default
partition has rows of it. A lapse leaves such rows, and nothing here moves them.
-/

namespace ComplyLayer

open Theory

/-- An insert of a row of some date, or a run of the maintenance job. -/
inductive PartitionEvent where
  | insert (d : Date)
  | ensure (today : Date) (monthsAhead : Int)

def partitionStep (t : DecisionTable) : PartitionEvent → Option DecisionTable
  | .insert d => some (t.insert d)
  | .ensure today monthsAhead => some (t.ensurePartitions today monthsAhead).1

/-- The date is in one of the months from today's on. -/
def InHorizon (today : Date) (monthsAhead : Int) (d : Date) : Prop :=
  today.monthIndex ≤ d.monthIndex ∧ (d.monthIndex : Int) ≤ today.monthIndex + monthsAhead

/-- A run of the job returns, every date of its months lies then in one partition, with the name of
the date's month, and running it again creates nothing. -/
def Maintains (t : DecisionTable) (e : PartitionEvent) : Prop :=
  ∀ today monthsAhead, e = .ensure today monthsAhead →
    ∃ t' created, t.ensurePartitions today monthsAhead = (t', .ok created) ∧
      (∀ d, InHorizon today monthsAhead d →
        ∃ p ∈ t'.partitions.rows, p.Holds d ∧ p.name = partitionName d ∧
          ∀ q ∈ t'.partitions.rows, q.Holds d → q = p) ∧
      t'.ensurePartitions today monthsAhead = (t', .ok [])

/-- The months of the job end before December 9999, and no row in the default partition is of one
of them. -/
def Unlapsed (t : DecisionTable) (e : PartitionEvent) : Prop :=
  ∀ today monthsAhead, e = .ensure today monthsAhead →
    today.monthIndex + monthsAhead < (Date.lastMonth : Int) ∧
      ∀ d ∈ t.inDefault, ¬ InHorizon today monthsAhead d

/-! ## Names -/

theorem padded_inj (h : padded width n = padded width m) : n % 10 ^ width = m % 10 ^ width := by
  have hdigits : ∀ a b : Fin 10, Nat.digitChar a = Nat.digitChar b → a = b := by decide
  have hlist : (List.range width).reverse.map (fun k => Nat.digitChar (n / 10 ^ k % 10)) =
      (List.range width).reverse.map (fun k => Nat.digitChar (m / 10 ^ k % 10)) :=
    String.ofList_injective h
  clear h
  induction width with
  | zero => rw [Nat.pow_zero, Nat.mod_one, Nat.mod_one]
  | succ width ih =>
    rw [List.range_succ, List.reverse_append, List.reverse_singleton, List.singleton_append,
      List.map_cons, List.map_cons, List.cons.injEq] at hlist
    obtain ⟨hdigit, hrest⟩ := hlist
    have hten (k : Nat) : k % 10 < 10 := Nat.mod_lt k (by decide)
    have hsame : n / 10 ^ width % 10 = m / 10 ^ width % 10 :=
      congrArg Fin.val (hdigits ⟨_, hten _⟩ ⟨_, hten _⟩ hdigit)
    rw [Nat.mod_pow_succ, Nat.mod_pow_succ, ih hrest, hsame]

theorem length_toList_padded (width n : Nat) : (padded width n).toList.length = width := by
  rw [padded, String.toList_ofList, List.length_map, List.length_reverse, List.length_range]

/-- Partitions of one name are of one month. -/
theorem partitionName_inj {a b : Date} (h : partitionName a = partitionName b) :
    a.monthIndex = b.monthIndex := by
  have htext := congrArg String.toList h
  simp only [partitionName, String.toList_append] at htext
  obtain ⟨hyear, hmonth⟩ := List.append_inj htext (by simp [length_toList_padded])
  obtain ⟨hyear, -⟩ := List.append_inj hyear (by simp [length_toList_padded])
  have hyear := padded_inj (String.toList_injective (List.append_cancel_left hyear))
  have hmonth := padded_inj (String.toList_injective hmonth)
  have ha := a.year_mem
  have hb := b.year_mem
  have ha' := a.month_mem
  have hb' := b.month_mem
  refine Date.monthIndex_eq_iff.mpr ⟨?_, ?_⟩
  · omega
  · omega

theorem safeName_partitionName (d : Date) : safeName (partitionName d) := by
  let safe (c : Char) : Bool := (('a' ≤ c && c ≤ 'z') || c = '_') || ('0' ≤ c && c ≤ '9')
  have hpadded (width n : Nat) : (padded width n).toList.all safe := by
    have hall : ∀ a : Fin 10, safe (Nat.digitChar a) = true := by decide
    rw [padded, String.toList_ofList, List.all_map, List.all_eq_true]
    exact fun k _ => hall ⟨_, Nat.mod_lt _ (by decide)⟩
  have hletters : ("omplylayer_decision_".toList.all safe) = true := by decide
  have hunderscore : ("_".toList.all safe) = true := by decide
  have hname : (partitionName d).toList = 'c' :: ("omplylayer_decision_".toList ++
      (padded 4 d.year).toList ++ "_".toList ++ (padded 2 d.month).toList) := by
    simp only [partitionName, decisionTable, String.toList_append]
    rfl
  rw [safeName, hname]
  have hrest : ("omplylayer_decision_".toList ++ (padded 4 d.year).toList ++ "_".toList ++
      (padded 2 d.month).toList).all safe = true := by
    rw [List.all_append, List.all_append, List.all_append, hletters, hpadded, hunderscore, hpadded]
    rfl
  rw [Bool.and_eq_true]
  exact ⟨by decide, hrest⟩

/-! ## Months -/

/-- The partition is a month, with its name. -/
structure Partition.IsMonth (p : Partition) : Prop where
  start : p.start.day = 1
  stop : p.stop.day = 1
  next : p.stop.monthIndex = p.start.monthIndex + 1
  name : p.name = partitionName p.start

section
variable {p q : Partition} {t t' : DecisionTable} {d current following : Date}

theorem Partition.IsMonth.holds_iff (h : p.IsMonth) :
    p.Holds d ↔ d.monthIndex = p.start.monthIndex := by
  rw [Partition.Holds, Date.le_iff_of_first h.start, Date.lt_iff_of_first h.stop, h.next]
  omega

theorem nextMonth_eq_ok_iff : nextMonth current = .ok following ↔
    following.day = 1 ∧ following.monthIndex = current.monthIndex + 1 := by
  have hmonth := current.month_mem
  have hmonth' := following.month_mem
  have hok (found : Option Date) :
      found.elim (.error (.valueError "year 10000 is out of range")) .ok =
        (.ok following : Except MaintenanceError Date) ↔ found = some following := by
    cases found with
    | none => exact ⟨fun h => (by cases h), fun h => (by cases h)⟩
    | some d => exact ⟨fun h => congrArg _ (Except.ok.inj h), fun h => congrArg _ (Option.some.inj h)⟩
  rw [nextMonth, hok]
  by_cases hlast : current.month = 12
  · rw [if_pos hlast, Date.new?_eq_some_iff, Date.monthIndex, Date.monthIndex]
    omega
  · rw [if_neg hlast, Date.new?_eq_some_iff, Date.monthIndex, Date.monthIndex]
    omega

theorem nextMonth_isOk_iff :
    (∃ following, nextMonth current = .ok following) ↔ current.monthIndex < Date.lastMonth := by
  have hyear := current.year_mem
  have hmonth := current.month_mem
  constructor
  · rintro ⟨following, hnext⟩
    have hindex := (nextMonth_eq_ok_iff.mp hnext).2
    have hlast := following.monthIndex_le_lastMonth
    omega
  · intro h
    simp only [Date.monthIndex, Date.lastMonth] at h
    by_cases hlast : current.month = 12
    · obtain ⟨following, hnew⟩ := Date.exists_new?_first_iff.mpr
        (show (1 ≤ current.year + 1 ∧ current.year + 1 ≤ 9999) ∧ 1 ≤ 1 ∧ 1 ≤ 12 by omega)
      refine ⟨following, ?_⟩
      rw [nextMonth, if_pos hlast, hnew]
      rfl
    · obtain ⟨following, hnew⟩ := Date.exists_new?_first_iff.mpr
        (show (1 ≤ current.year ∧ current.year ≤ 9999) ∧ 1 ≤ current.month + 1 ∧
          current.month + 1 ≤ 12 by omega)
      refine ⟨following, ?_⟩
      rw [nextMonth, if_neg hlast, hnew]
      rfl

/-- The partitions of `partitions_for` are months, one for each that it goes through. -/
theorem partitionsFrom_eq_ok (hfirst : current.day = 1) {months : Nat} {ps : List Partition}
    (h : partitionsFrom current months = .ok ps) :
    (∀ p ∈ ps, p.IsMonth) ∧ ∀ k, (∃ p ∈ ps, p.start.monthIndex = k) ↔
      current.monthIndex ≤ k ∧ k < current.monthIndex + months := by
  induction months generalizing current ps with
  | zero =>
    cases h
    refine ⟨fun p hp => absurd hp List.not_mem_nil, fun k => ?_⟩
    simp
  | succ months ih =>
    obtain ⟨following, hnext, h⟩ := bind_eq_ok.mp h
    obtain ⟨rest, hrest, h⟩ := bind_eq_ok.mp h
    cases pure_eq_ok.mp h
    obtain ⟨hday, hindex⟩ := nextMonth_eq_ok_iff.mp hnext
    obtain ⟨hmonths, hcover⟩ := ih hday hrest
    refine ⟨List.forall_mem_cons.mpr ⟨⟨hfirst, hday, hindex, rfl⟩, hmonths⟩, fun k => ?_⟩
    simp only [List.exists_mem_cons_iff, hcover, hindex]
    omega

theorem partitionsFrom_isOk_iff {months : Nat} : (∃ ps, partitionsFrom current months = .ok ps) ↔
    months = 0 ∨ current.monthIndex + months ≤ Date.lastMonth := by
  induction months generalizing current with
  | zero => exact iff_of_true ⟨[], rfl⟩ (.inl rfl)
  | succ months ih =>
    constructor
    · rintro ⟨ps, h⟩
      obtain ⟨following, hnext, h⟩ := bind_eq_ok.mp h
      obtain ⟨rest, hrest, -⟩ := bind_eq_ok.mp h
      have hlast := nextMonth_isOk_iff.mp ⟨following, hnext⟩
      have hindex := (nextMonth_eq_ok_iff.mp hnext).2
      have hmore := ih.mp ⟨rest, hrest⟩
      omega
    · intro h
      obtain ⟨following, hnext⟩ := nextMonth_isOk_iff.mpr (show current.monthIndex < _ by omega)
      have hindex := (nextMonth_eq_ok_iff.mp hnext).2
      obtain ⟨rest, hrest⟩ := ih.mpr (show months = 0 ∨ following.monthIndex + months ≤ _ by omega)
      exact ⟨_, bind_eq_ok.mpr ⟨following, hnext, bind_eq_ok.mpr ⟨rest, hrest, rfl⟩⟩⟩

/-! ## Creating what is missing -/

/-- Every partition is a month, and no row that a partition holds is in the default one. -/
structure Regular (t : DecisionTable) : Prop where
  months : ∀ p ∈ t.partitions.rows, p.IsMonth
  routed : ∀ d ∈ t.inDefault, ∀ p ∈ t.partitions.rows, ¬ p.Holds d

theorem Partition.IsMonth.eq_of_month (hp : p.IsMonth) (hq : q.IsMonth)
    (h : p.start.monthIndex = q.start.monthIndex) : p = q := by
  have hstart := Date.eq_of_first hp.start hq.start h
  have hstop : p.stop = q.stop :=
    Date.eq_of_first hp.stop hq.stop (by rw [hp.next, hq.next, h])
  have hname : p.name = q.name := by rw [hp.name, hq.name, hstart]
  cases p
  cases q
  cases hstart
  cases hstop
  cases hname
  rfl

/-- The partition of the name is the month. -/
theorem Regular.find?_eq_some (h : Regular t) (hp : p.IsMonth)
    (hfound : (t.partitions.find? p.name).isSome) : p ∈ t.partitions.rows := by
  obtain ⟨q, hq⟩ := Option.isSome_iff_exists.mp hfound
  obtain ⟨hmem, hname⟩ := Table.find?_eq_some_iff.mp hq
  have hmonth := h.months q hmem
  rw [hmonth.name, hp.name] at hname
  rw [hp.eq_of_month hmonth (partitionName_inj hname).symm]
  exact hmem

theorem inDefault_insert (t : DecisionTable) (d : Date) :
    (t.insert d).inDefault = t.inDefault ++ if t.routed d = none then [d] else [] := by
  rw [DecisionTable.insert, DecisionTable.inDefault, DecisionTable.inDefault, List.filter_append,
    List.map_append]
  refine congrArg _ ?_
  by_cases h : t.routed d = none
  · simp [h]
  · simp [h]

theorem Regular.insert (h : Regular t) (d : Date) : Regular (t.insert d) where
  months := h.months
  routed d' hd' p hp := by
    rw [inDefault_insert] at hd'
    rcases List.mem_append.mp hd' with hd' | hd'
    · exact h.routed d' hd' p hp
    · split at hd'
      · rename_i hnone
        rw [List.mem_singleton.mp hd']
        have hfind := List.find?_eq_none.mp (Option.map_eq_none_iff.mp hnone) p hp
        exact fun hholds => hfind (decide_eq_true hholds)
      · exact absurd hd' List.not_mem_nil

/-- No partition overlaps a missing month. -/
theorem Regular.not_overlaps (h : Regular t) (hp : p.IsMonth)
    (hmissing : t.partitions.find? p.name = none) :
    ¬ t.partitions.rows.any fun q => p.start < q.stop ∧ q.start < p.stop := by
  intro hany
  obtain ⟨q, hmem, hoverlap⟩ := List.any_eq_true.mp hany
  obtain ⟨hpq, hqp⟩ := of_decide_eq_true hoverlap
  have hq := h.months q hmem
  rw [Date.lt_iff_of_first hq.stop, hq.next] at hpq
  rw [Date.lt_iff_of_first hp.stop, hp.next] at hqp
  have hsame : p = q := hp.eq_of_month hq (by omega)
  exact Table.find?_eq_none_iff.mp hmissing (List.mem_map.mpr ⟨q, hmem, hsame ▸ rfl⟩)

/-- A missing month is created just where the default partition has no row of it. -/
theorem createPartition_eq_ok_iff (h : Regular t) (hp : p.IsMonth)
    (hmissing : t.partitions.find? p.name = none) : t.createPartition p = .ok t' ↔
      (∀ d ∈ t.inDefault, ¬ p.Holds d) ∧ t'.partitions.rows = t.partitions.rows ++ [p] ∧
        t'.rows = t.rows := by
  have hname : identifier p.name = .ok p.name :=
    if_pos (hp.name ▸ safeName_partitionName p.start)
  have hdefault : (t.inDefault.any fun d => p.Holds d) = true ↔
      ¬ ∀ d ∈ t.inDefault, ¬ p.Holds d := by
    simp
  rw [DecisionTable.createPartition, bind_eq_ok]
  simp only [hname, Except.ok.injEq, exists_eq_left']
  rw [if_neg (h.not_overlaps hp hmissing)]
  by_cases hfree : ∀ d ∈ t.inDefault, ¬ p.Holds d
  · rw [if_neg fun hany => hdefault.mp hany hfree]
    cases hinsert : t.partitions.insert? p with
    | none =>
      have hfound := Table.insert?_eq_none_iff.mp hinsert
      rw [hmissing] at hfound
      cases hfound
    | some partitions =>
      obtain ⟨-, hrows⟩ := Table.insert?_eq_some_iff.mp hinsert
      rw [← hrows]
      constructor
      · intro hok
        cases hok
        exact ⟨hfree, rfl, rfl⟩
      · rintro ⟨-, hpartitions, hrows'⟩
        obtain ⟨partitions', rows'⟩ := t'
        cases Table.ext hpartitions
        cases hrows'
        rfl
  · rw [if_pos (hdefault.mpr hfree)]
    exact ⟨fun h => (by cases h), fun h => absurd h.1 hfree⟩

theorem exists_createPartition (h : Regular t) (hp : p.IsMonth)
    (hmissing : t.partitions.find? p.name = none) (hfree : ∀ d ∈ t.inDefault, ¬ p.Holds d) :
    ∃ t', t.createPartition p = .ok t' := by
  cases hinsert : t.partitions.insert? p with
  | none =>
    have hfound := Table.insert?_eq_none_iff.mp hinsert
    rw [hmissing] at hfound
    cases hfound
  | some partitions =>
    exact ⟨{ t with partitions := partitions }, (createPartition_eq_ok_iff h hp hmissing).mpr
      ⟨hfree, (Table.insert?_eq_some_iff.mp hinsert).2, rfl⟩⟩

theorem Regular.create (h : Regular t) (hp : p.IsMonth)
    (hmissing : t.partitions.find? p.name = none) (hcreate : t.createPartition p = .ok t') :
    Regular t' := by
  obtain ⟨hfree, hpartitions, hrows⟩ := (createPartition_eq_ok_iff h hp hmissing).mp hcreate
  have hdefault : t'.inDefault = t.inDefault := by
    rw [DecisionTable.inDefault, DecisionTable.inDefault, hrows]
  constructor
  · rw [hpartitions]
    exact List.forall_mem_append.mpr ⟨h.months, List.forall_mem_singleton.mpr hp⟩
  · intro d hd
    rw [hdefault] at hd
    rw [hpartitions]
    exact List.forall_mem_append.mpr ⟨h.routed d hd, List.forall_mem_singleton.mpr (hfree d hd)⟩

/-- Nothing is created where nothing is missing. -/
theorem createMissing_of_found {ps : List Partition}
    (h : ∀ p ∈ ps, (t.partitions.find? p.name).isSome) : t.createMissing ps = (t, .ok []) := by
  induction ps with
  | nil => rfl
  | cons p rest ih =>
    obtain ⟨hp, hrest⟩ := List.forall_mem_cons.mp h
    rw [DecisionTable.createMissing, if_pos hp]
    exact ih hrest

/-- The job leaves a regular table, with the partitions and the default rows there were. -/
structure Grown (t t' : DecisionTable) : Prop where
  regular : Regular t'
  partitions : ∀ p ∈ t.partitions.rows, p ∈ t'.partitions.rows
  inDefault : t'.inDefault = t.inDefault

/-- What the loop does with a month. -/
theorem createMissing_cons (h : Regular t) (hp : p.IsMonth) (rest : List Partition) :
    (p ∈ t.partitions.rows ∧ t.createMissing (p :: rest) = t.createMissing rest) ∨
    (∃ e, (∃ d ∈ t.inDefault, p.Holds d) ∧ t.createMissing (p :: rest) = (t, .error e)) ∨
    ∃ t', Grown t t' ∧ p ∈ t'.partitions.rows ∧ t.createMissing (p :: rest) =
      ((t'.createMissing rest).1, (t'.createMissing rest).2.map (p.name :: ·)) := by
  rw [DecisionTable.createMissing]
  cases hfound : t.partitions.find? p.name with
  | some q =>
    exact .inl ⟨h.find?_eq_some hp (hfound ▸ rfl), if_pos rfl⟩
  | none =>
    rw [if_neg (by simp)]
    cases hcreate : t.createPartition p with
    | error e =>
      refine .inr (.inl ⟨e, ?_, rfl⟩)
      by_contra hfree
      obtain ⟨t', hok⟩ := exists_createPartition h hp hfound fun d hd hholds =>
        hfree ⟨d, hd, hholds⟩
      cases hcreate.symm.trans hok
    | ok t' =>
      obtain ⟨-, hpartitions, hrows⟩ := (createPartition_eq_ok_iff h hp hfound).mp hcreate
      refine .inr (.inr ⟨t', ⟨h.create hp hfound hcreate, fun q hq => ?_, ?_⟩, ?_, rfl⟩)
      · rw [hpartitions]
        exact List.mem_append_left _ hq
      · rw [DecisionTable.inDefault, DecisionTable.inDefault, hrows]
      · rw [hpartitions]
        exact List.mem_append_right _ (List.mem_singleton_self p)

theorem Grown.trans {t'' : DecisionTable} (h : Grown t t') (h' : Grown t' t'') :
    Grown t t'' where
  regular := h'.regular
  partitions p hp := h'.partitions p (h.partitions p hp)
  inDefault := h'.inDefault.trans h.inDefault

/-- **The loop**, over months: it goes to its end just where the default partition has no row of
any of them, and then they are all there. -/
theorem createMissing_spec {ps : List Partition} (h : Regular t) (hps : ∀ p ∈ ps, p.IsMonth) :
    Grown t (t.createMissing ps).1 ∧
      ((∃ created, (t.createMissing ps).2 = .ok created) ↔
        ∀ d ∈ t.inDefault, ∀ p ∈ ps, ¬ p.Holds d) ∧
      ((∃ created, (t.createMissing ps).2 = .ok created) →
        ∀ p ∈ ps, p ∈ (t.createMissing ps).1.partitions.rows) := by
  induction ps generalizing t with
  | nil =>
    refine ⟨⟨h, fun p hp => hp, rfl⟩, iff_of_true ⟨[], rfl⟩ fun d _ p hp => ?_, fun _ p hp => ?_⟩
    · cases hp
    · cases hp
  | cons p rest ih =>
    obtain ⟨hp, hrest⟩ := List.forall_mem_cons.mp hps
    rcases createMissing_cons h hp rest with ⟨hmem, heq⟩ | ⟨e, ⟨d, hd, hholds⟩, heq⟩ |
      ⟨t', hextends, hmem, heq⟩
    · obtain ⟨hext, hok, hall⟩ := ih h hrest
      rw [heq]
      refine ⟨hext, hok.trans ?_, fun hcreated => ?_⟩
      · refine forall₂_congr fun d hd => ?_
        rw [List.forall_mem_cons]
        exact (and_iff_right (h.routed d hd p hmem)).symm
      · exact List.forall_mem_cons.mpr ⟨hext.partitions p hmem, hall hcreated⟩
    · rw [heq]
      refine ⟨⟨h, fun p hp => hp, rfl⟩, iff_of_false (fun ⟨created, hok⟩ => ?_) fun hfree => ?_,
        fun ⟨created, hok⟩ => ?_⟩
      · cases hok
      · exact hfree d hd p List.mem_cons_self hholds
      · cases hok
    · obtain ⟨hext, hok, hall⟩ := ih hextends.regular hrest
      have hcreated : (∃ created, (t'.createMissing rest).2.map (p.name :: ·) = .ok created) ↔
          ∃ created, (t'.createMissing rest).2 = .ok created := by
        cases (t'.createMissing rest).2 with
        | error e => exact ⟨fun ⟨c, hc⟩ => (by cases hc), fun ⟨c, hc⟩ => (by cases hc)⟩
        | ok created => exact ⟨fun _ => ⟨created, rfl⟩, fun _ => ⟨p.name :: created, rfl⟩⟩
      rw [heq, hcreated, hok, hextends.inDefault]
      refine ⟨hextends.trans hext, ?_, fun hfree => ?_⟩
      · refine forall₂_congr fun d hd => ?_
        rw [List.forall_mem_cons]
        exact (and_iff_right (hextends.regular.routed d (hextends.inDefault ▸ hd) p hmem)).symm
      · exact List.forall_mem_cons.mpr ⟨hext.partitions p hmem,
          hall (hok.mpr (hextends.inDefault.symm ▸ hfree))⟩

/-! ## The job -/

theorem partitionsFor_isOk_iff {today : Date} {monthsAhead : Int} :
    (∃ ps, partitionsFor today (monthsAhead + 1) = .ok ps) ↔
      today.monthIndex + monthsAhead < (Date.lastMonth : Int) := by
  have hindex : (monthStart today).monthIndex = today.monthIndex := rfl
  have hlast := today.monthIndex_le_lastMonth
  rw [partitionsFor, partitionsFrom_isOk_iff, hindex]
  omega

theorem partitionsFor_eq_ok {today : Date} {monthsAhead : Int} {ps : List Partition}
    (h : partitionsFor today (monthsAhead + 1) = .ok ps) :
    (∀ p ∈ ps, p.IsMonth) ∧
      ∀ d, InHorizon today monthsAhead d ↔ ∃ p ∈ ps, p.Holds d := by
  obtain ⟨hmonths, hcover⟩ := partitionsFrom_eq_ok (show (monthStart today).day = 1 from rfl) h
  refine ⟨hmonths, fun d => ?_⟩
  have hholds : (∃ p ∈ ps, p.Holds d) ↔ ∃ p ∈ ps, p.start.monthIndex = d.monthIndex :=
    exists_congr fun p => and_congr_right fun hp => (hmonths p hp).holds_iff.trans eq_comm
  have hindex : (monthStart today).monthIndex = today.monthIndex := rfl
  rw [hholds, hcover, hindex, InHorizon]
  omega

/-- What the job does to a regular table. -/
theorem Regular.ensure (h : Regular t) (today : Date) (monthsAhead : Int) :
    Regular (t.ensurePartitions today monthsAhead).1 := by
  rw [DecisionTable.ensurePartitions]
  cases hps : partitionsFor today (monthsAhead + 1) with
  | error e => exact h
  | ok ps => exact (createMissing_spec h (partitionsFor_eq_ok hps).1).1.regular

theorem Regular.step (h : Regular t) (hstep : partitionStep t e = some t') : Regular t' := by
  cases e with
  | insert d =>
    cases hstep
    exact h.insert d
  | ensure today monthsAhead =>
    cases hstep
    exact h.ensure today monthsAhead

/-- After a run of the job that returns, its months are covered. -/
theorem maintained {ps : List Partition} {today : Date} {monthsAhead : Int} (h : Regular t)
    (hps : partitionsFor today (monthsAhead + 1) = .ok ps) (hall : ∀ p ∈ ps, p ∈ t.partitions.rows) :
    (∀ d, InHorizon today monthsAhead d →
      ∃ p ∈ t.partitions.rows, p.Holds d ∧ p.name = partitionName d ∧
        ∀ q ∈ t.partitions.rows, q.Holds d → q = p) ∧
    t.ensurePartitions today monthsAhead = (t, .ok []) := by
  obtain ⟨hmonths, hcover⟩ := partitionsFor_eq_ok hps
  constructor
  · intro d hd
    obtain ⟨p, hp, hholds⟩ := (hcover d).mp hd
    have hmonth := hmonths p hp
    have hindex := hmonth.holds_iff.mp hholds
    refine ⟨p, hall p hp, hholds, ?_, fun q hq hqholds => ?_⟩
    · obtain ⟨hyear, hsame⟩ := Date.monthIndex_eq_iff.mp hindex
      rw [hmonth.name, partitionName, partitionName, hyear, hsame]
    · have hq := h.months q hq
      exact hq.eq_of_month hmonth ((hq.holds_iff.mp hqholds).symm.trans hindex)
  · rw [DecisionTable.ensurePartitions, hps]
    refine createMissing_of_found fun p hp => Option.isSome_iff_exists.mpr ⟨p, ?_⟩
    exact Table.find?_eq_some_iff.mpr ⟨hall p hp, rfl⟩

/-- One event. -/
theorem maintains_iff (h : Regular t) : Maintains t e ↔ Unlapsed t e := by
  refine forall₃_congr fun today monthsAhead he => ?_
  cases hps : partitionsFor today (monthsAhead + 1) with
  | error raised =>
    refine iff_of_false (fun ⟨t', created, hrun, _⟩ => ?_) fun ⟨hhorizon, _⟩ => ?_
    · rw [DecisionTable.ensurePartitions, hps] at hrun
      cases hrun
    · obtain ⟨ps, hok⟩ := partitionsFor_isOk_iff.mpr hhorizon
      cases hps.symm.trans hok
  | ok ps =>
    obtain ⟨hmonths, hcover⟩ := partitionsFor_eq_ok hps
    obtain ⟨hextends, hok, hall⟩ := createMissing_spec h hmonths
    have hrun : t.ensurePartitions today monthsAhead = t.createMissing ps := by
      rw [DecisionTable.ensurePartitions, hps]
    have hfree : (∀ d ∈ t.inDefault, ∀ p ∈ ps, ¬ p.Holds d) ↔
        ∀ d ∈ t.inDefault, ¬ InHorizon today monthsAhead d := by
      refine forall₂_congr fun d _ => ?_
      rw [hcover d]
      exact ⟨fun hno ⟨p, hp, hholds⟩ => hno p hp hholds, fun hno p hp hholds => hno ⟨p, hp, hholds⟩⟩
    rw [hrun, ← hfree, ← hok]
    constructor
    · rintro ⟨t', created, hcreated, -⟩
      exact ⟨partitionsFor_isOk_iff.mp ⟨ps, hps⟩, created, congrArg Prod.snd hcreated⟩
    · rintro ⟨-, created, hcreated⟩
      obtain ⟨hcovered, hagain⟩ := maintained hextends.regular hps (hall ⟨created, hcreated⟩)
      exact ⟨_, created, Prod.ext rfl hcreated, hcovered, hagain⟩

/-- **Partition maintenance.** From the table as it is migrated, over every sequence of inserts and
runs of the job, the job creates what it should just where no row of its months has got into the
default partition, and the months end before the last one that has a next. -/
theorem maintenance_recovers_iff (events : List PartitionEvent) :
    Along partitionStep Maintains {} events ↔ Along partitionStep Unlapsed {} events := by
  have hstart : Regular {} :=
    ⟨fun p hp => absurd hp List.not_mem_nil, fun d hd => absurd hd List.not_mem_nil⟩
  exact along_congr (fun _ _ h => maintains_iff h) (fun _ _ _ h _ hstep => h.step hstep) hstart

end

/-! A run a month late: an insert in between is in the default partition. -/

def march : Date := ⟨2027, 3, 20, by decide, by decide, by decide⟩

def june : Date := ⟨2027, 6, 2, by decide, by decide, by decide⟩

def lapse : List PartitionEvent := [.ensure march 2, .insert june, .ensure june 2]

theorem maintenance_lapses : ¬ Along partitionStep Maintains {} lapse := by
  intro h
  have hlaw := along_iff_forall.mp h [.ensure march 2, .insert june] (.ensure june 2) [] _ rfl rfl
  obtain ⟨t', created, hcreated, -⟩ := hlaw june 2 rfl
  have herror : ((({} : DecisionTable).ensurePartitions march 2).1.insert june).ensurePartitions
      june 2 = (t', .ok created) := hcreated
  have hfailed : (((({} : DecisionTable).ensurePartitions march 2).1.insert june).ensurePartitions
      june 2).2.toOption = none := by
    decide +kernel
  rw [herror] at hfailed
  cases hfailed

end ComplyLayer
