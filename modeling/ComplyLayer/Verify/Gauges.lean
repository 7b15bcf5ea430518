import ComplyLayer.Engine.Metrics

/-!
# Which gauges a scrape reports

Publications of any workers, in order, and a read after them. Every publication renews the one hash,
so a field is there as long as no pause since its last publication reached the time to live, however
long ago that was (`get?_report`).
-/

namespace ComplyLayer

open Theory Redis

/-- One `publish_gauge` of a worker, with the time since the publication before. -/
structure Publish where
  elapsed : ℚ := 0
  worker : GaugeWorker
  name : String
  value : Value
  labels : Dict String String := ∅

def Publish.key (p : Publish) : MetricKey := metricKey p.worker p.name p.labels

/-- Whose series it is, and which. -/
def Publish.series (p : Publish) : GaugeWorker × MetricKey := (p.worker, p.key)

def Publish.field (p : Publish) : String := renderKey p.key

section
variable (py : Python) (server : Server)

def serverAfterPublishing (published : List Publish) : Server :=
  published.foldl
    (fun r p => publishGauge py (r.elapse p.elapsed) p.worker p.name p.value p.labels) server

/-- What `shared_gauges` returns a time after the last publication. -/
def gaugeReport (published : List Publish) (seconds : ℚ) : Dict String ℚ :=
  sharedGauges py ((serverAfterPublishing py server published).elapse seconds)

end

/-- The fields after a pause. -/
def lapsed (gauges : Dict String String) (seconds : ℚ) : Dict String String :=
  if seconds < sharedGaugeTtlSeconds then gauges else ∅

/-- The fields of the hash, without a server. -/
def gaugesAfter (py : Python) (published : List Publish) : Dict String String :=
  published.foldl (fun d p => (lapsed d p.elapsed).set p.field (py.repr p.value)) ∅

/-- `last` is the last publication of its kind, and `later` come after it. -/
def LastOf (kind : Publish → Prop) (published : List Publish) (last : Publish)
    (later : List Publish) : Prop :=
  ∃ before, published = before ++ last :: later ∧ kind last ∧ ∀ p ∈ later, ¬ kind p

/-- The pauses from a publication to the read. -/
def pauses (later : List Publish) (seconds : ℚ) : List ℚ :=
  later.map Publish.elapsed ++ [seconds]

/-- A scrape reports the series that their workers published within the time to live, with the value
last published, and no field that nobody published. -/
def ReportsTheLiving (py : Python) (server : Server) (published : List Publish) (seconds : ℚ) :
    Prop :=
  (∀ last later, LastOf (fun p => p.series = last.series) published last later →
    ∀ q, (gaugeReport py server published seconds).get? last.field = some q ↔
      (pauses later seconds).sum < sharedGaugeTtlSeconds ∧ last.value.real? = some q) ∧
  ∀ field, (∀ p ∈ published, p.field ≠ field) →
    (gaugeReport py server published seconds).get? field = none

/-- A series that was published within the time to live is what its field shows; since the last
publication under the field of any other, all publishing once paused for the time to live. -/
def PausesAfterDeath (published : List Publish) (seconds : ℚ) : Prop :=
  ∀ last later, LastOf (fun p => p.series = last.series) published last later →
    ∀ shown since, LastOf (fun p => p.field = last.field) published shown since →
      if (pauses later seconds).sum < sharedGaugeTtlSeconds
      then shown.value.real? = last.value.real?
      else ∃ pause ∈ pauses since seconds, (sharedGaugeTtlSeconds : ℚ) ≤ pause

/-- The server has the fields, and they run out after the last publication. -/
structure HoldsGauges (server : Server) (gauges : Dict String String) : Prop where
  fields : server.hash? sharedGaugeKey = some gauges
  due : Due server sharedGaugeKey sharedGaugeTtlSeconds 0

section
variable {py : Python} {server : Server} {gauges : Dict String String} {published : List Publish}
  {seconds : ℚ} {kind : Publish → Prop}

theorem gaugesAfter_concat (py : Python) (published : List Publish) (p : Publish) :
    gaugesAfter py (published ++ [p]) =
      (lapsed (gaugesAfter py published) p.elapsed).set p.field (py.repr p.value) := by
  rw [gaugesAfter, List.foldl_append]
  rfl

/-- Time passes: the fields stay for the time to live. -/
theorem HoldsGauges.elapse (h : HoldsGauges server gauges) (hseconds : 0 ≤ seconds) :
    (server.elapse seconds).hash? sharedGaugeKey = some (lapsed gauges seconds) := by
  have hfind := h.due.find?_elapse hseconds
  rw [zero_add] at hfind
  rw [lapsed]
  by_cases hlive : seconds < sharedGaugeTtlSeconds
  · rw [if_pos hlive] at hfind ⊢
    rw [Server.hash?_congr hfind]
    exact h.fields
  · rw [if_neg hlive] at hfind ⊢
    rw [Server.hash?, hfind]
    rfl

theorem HoldsGauges.publish (h : HoldsGauges server gauges) (p : Publish)
    (helapsed : 0 ≤ p.elapsed) :
    HoldsGauges (publishGauge py (server.elapse p.elapsed) p.worker p.name p.value p.labels)
      ((lapsed gauges p.elapsed).set p.field (py.repr p.value)) := by
  obtain ⟨server', hserver, hwrites⟩ :=
    publishGauge_writes py (h.elapse helapsed) p.worker p.name p.value p.labels
  rw [hserver]
  refine ⟨Server.hash?_of_find? hwrites.self, due_of_find? hwrites.self (congrArg some ?_)⟩
  rw [hwrites.now, sub_zero]

/-- The run lemma. -/
theorem holdsGauges_after (hnew : server.find? sharedGaugeKey = none)
    (helapsed : ∀ p ∈ published, 0 ≤ p.elapsed) :
    HoldsGauges (serverAfterPublishing py server published) (gaugesAfter py published) := by
  induction published using List.reverseRecOn with
  | nil =>
    refine ⟨?_, due_of_none hnew _ _⟩
    rw [Server.hash?, serverAfterPublishing, List.foldl_nil, hnew]
    rfl
  | append_singleton published p ih =>
    rw [gaugesAfter_concat, serverAfterPublishing, List.foldl_append]
    refine (ih fun b hb => ?_).publish p ?_
    · exact helapsed b (List.mem_append_left _ hb)
    · exact helapsed p (List.mem_append_right _ (List.mem_singleton_self p))

theorem gaugeReport_eq (hnew : server.find? sharedGaugeKey = none)
    (helapsed : ∀ p ∈ published, 0 ≤ p.elapsed) (hseconds : 0 ≤ seconds) :
    gaugeReport py server published seconds =
      (lapsed (gaugesAfter py published) seconds).filterMap py.float :=
  sharedGauges_eq py ((holdsGauges_after hnew helapsed).elapse hseconds)

/-! ## The last publication -/

theorem lastOf_concat_self {p : Publish} (h : kind p) (published : List Publish) :
    LastOf kind (published ++ [p]) p [] :=
  ⟨published, rfl, h, fun _ hmem => absurd hmem List.not_mem_nil⟩

theorem LastOf.concat {p : Publish} (h : LastOf kind published last later) (hp : ¬ kind p) :
    LastOf kind (published ++ [p]) last (later ++ [p]) := by
  obtain ⟨before, rfl, hlast, hlater⟩ := h
  refine ⟨before, by rw [List.append_assoc, List.cons_append], hlast, fun b hb => ?_⟩
  rcases List.mem_append.mp hb with hb | hb
  · exact hlater b hb
  · rw [List.mem_singleton.mp hb]
    exact hp

theorem LastOf.mem (h : LastOf kind published last later) : last ∈ published := by
  obtain ⟨before, rfl, -, -⟩ := h
  exact List.mem_append_right _ List.mem_cons_self

theorem LastOf.later_subset (h : LastOf kind published last later) : later ⊆ published := by
  obtain ⟨before, rfl, -, -⟩ := h
  exact fun p hp => List.mem_append_right _ (List.mem_cons_of_mem _ hp)

theorem exists_lastOf (hmem : p ∈ published) (hp : kind p) :
    ∃ last later, LastOf kind published last later := by
  induction published using List.reverseRecOn with
  | nil => cases hmem
  | append_singleton published b ih =>
    by_cases hb : kind b
    · exact ⟨b, [], lastOf_concat_self hb published⟩
    · rcases List.mem_append.mp hmem with hmem | hmem
      · obtain ⟨last, later, hlast⟩ := ih hmem
        exact ⟨last, later ++ [b], hlast.concat hb⟩
      · rw [List.mem_singleton.mp hmem] at hp
        exact absurd hp hb

theorem LastOf.of_singleton (h : LastOf kind [p] last later) : last = p ∧ later = [] := by
  obtain ⟨before, heq, -, -⟩ := h
  cases before with
  | nil => exact ⟨(List.cons.inj heq).1.symm, (List.cons.inj heq).2.symm⟩
  | cons b before => exact absurd (List.cons.inj heq).2.symm (by simp)

/-- A series is not published after its field was. -/
theorem LastOf.suffix
    (hlast : LastOf (fun p => p.series = last.series) published last later)
    (hshown : LastOf (fun p => p.field = last.field) published shown since) : since <:+ later := by
  obtain ⟨before, rfl, -, -⟩ := hlast
  obtain ⟨before', heq, -, hsince⟩ := hshown
  have hone : last :: later <:+ before ++ last :: later := List.suffix_append _ _
  have htwo : shown :: since <:+ before ++ last :: later := heq ▸ List.suffix_append _ _
  rcases List.suffix_or_suffix_of_suffix hone htwo with h | h
  · rcases List.suffix_cons_iff.mp h with heq | h
    · rw [(List.cons.inj heq).2]
    · exact absurd rfl (hsince last (h.subset List.mem_cons_self))
  · rcases List.suffix_cons_iff.mp h with heq | h
    · rw [(List.cons.inj heq).2]
    · exact (List.suffix_cons shown since).trans h

theorem get?_lapsed (gauges : Dict String String) (seconds : ℚ) (field : String) :
    (lapsed gauges seconds).get? field =
      if seconds < sharedGaugeTtlSeconds then gauges.get? field else none := by
  rw [lapsed]
  split <;> rfl

/-- What the field holds: its last value, unless all publishing paused for the time to live. -/
theorem get?_gaugesAfter (h : LastOf (fun p => p.field = field) published last later) :
    (gaugesAfter py published).get? field =
      if ∀ p ∈ later, p.elapsed < sharedGaugeTtlSeconds then some (py.repr last.value)
      else none := by
  obtain ⟨before, rfl, rfl, hlater⟩ := h
  induction later using List.reverseRecOn with
  | nil =>
    rw [gaugesAfter_concat, Dict.get?_set_self]
    exact (if_pos fun p hp => absurd hp List.not_mem_nil).symm
  | append_singleton later p ih =>
    have hne : last.field ≠ p.field := fun heq =>
      hlater p (List.mem_append_right _ (List.mem_singleton_self p)) heq.symm
    have hpast := ih fun b hb => hlater b (List.mem_append_left _ hb)
    rw [← List.cons_append, ← List.append_assoc, gaugesAfter_concat, Dict.get?_set_of_ne hne,
      get?_lapsed, hpast, ← ite_and]
    refine if_congr ?_ rfl rfl
    rw [List.forall_mem_append, List.forall_mem_singleton]
    exact and_comm

theorem get?_gaugesAfter_of_not_published (h : ∀ p ∈ published, p.field ≠ field) :
    (gaugesAfter py published).get? field = none := by
  induction published using List.reverseRecOn with
  | nil => rfl
  | append_singleton published p ih =>
    obtain ⟨hpublished, hp⟩ := List.forall_mem_append.mp h
    rw [gaugesAfter_concat, Dict.get?_set_of_ne (hp p (List.mem_singleton_self p)).symm,
      get?_lapsed, ih hpublished, ite_self]

/-- A number that `float` reads back from the text `repr` gives it. -/
def Publish.Reads (py : Python) (p : Publish) : Prop :=
  ∃ q, p.value.real? = some q ∧ py.float (py.repr p.value) = some q

/-- What a scrape reports of a field. -/
theorem get?_report (hnew : server.find? sharedGaugeKey = none)
    (helapsed : ∀ p ∈ published, 0 ≤ p.elapsed) (hseconds : 0 ≤ seconds)
    (hreads : ∀ p ∈ published, p.Reads py)
    (h : LastOf (fun p => p.field = field) published last later) :
    (gaugeReport py server published seconds).get? field =
      if ∀ pause ∈ pauses later seconds, pause < sharedGaugeTtlSeconds then last.value.real?
      else none := by
  obtain ⟨q, hvalue, hfloat⟩ := hreads last h.mem
  rw [gaugeReport_eq hnew helapsed hseconds, Dict.get?_filterMap, get?_lapsed, get?_gaugesAfter h,
    ← ite_and, hvalue, ← hfloat]
  have hpauses : (∀ pause ∈ pauses later seconds, pause < (sharedGaugeTtlSeconds : ℚ)) ↔
      seconds < sharedGaugeTtlSeconds ∧ ∀ p ∈ later, p.elapsed < sharedGaugeTtlSeconds := by
    rw [pauses, List.forall_mem_append, List.forall_mem_singleton, List.forall_mem_map]
    exact and_comm
  by_cases hlive : seconds < sharedGaugeTtlSeconds ∧ ∀ p ∈ later, p.elapsed < sharedGaugeTtlSeconds
  · rw [if_pos hlive, if_pos (hpauses.mpr hlive)]
    rfl
  · rw [if_neg hlive, if_neg fun h => hlive (hpauses.mp h)]
    rfl

/-- A time below the time to live has no pause of the time to live. -/
theorem pause_lt_of_sum_lt (helapsed : ∀ p ∈ later, 0 ≤ p.elapsed) (hseconds : 0 ≤ seconds)
    (hsum : (pauses later seconds).sum < sharedGaugeTtlSeconds)
    (hpause : pause ∈ pauses later seconds) : pause < sharedGaugeTtlSeconds := by
  have hnonneg : ∀ pause ∈ pauses later seconds, 0 ≤ pause := by
    rw [pauses, List.forall_mem_append, List.forall_mem_singleton, List.forall_mem_map]
    exact ⟨helapsed, hseconds⟩
  exact (List.single_le_sum hnonneg pause hpause).trans_lt hsum

/-- What a scrape reports of one series. -/
theorem reports_series_iff (hnew : server.find? sharedGaugeKey = none)
    (helapsed : ∀ p ∈ published, 0 ≤ p.elapsed) (hseconds : 0 ≤ seconds)
    (hreads : ∀ p ∈ published, p.Reads py)
    (hlast : LastOf (fun p => p.series = last.series) published last later)
    (hshown : LastOf (fun p => p.field = last.field) published shown since) :
    (∀ q, (gaugeReport py server published seconds).get? last.field = some q ↔
        (pauses later seconds).sum < sharedGaugeTtlSeconds ∧ last.value.real? = some q) ↔
      if (pauses later seconds).sum < sharedGaugeTtlSeconds
      then shown.value.real? = last.value.real?
      else ∃ pause ∈ pauses since seconds, (sharedGaugeTtlSeconds : ℚ) ≤ pause := by
  rw [get?_report hnew helapsed hseconds hreads hshown]
  by_cases hage : (pauses later seconds).sum < sharedGaugeTtlSeconds
  · have hlater : ∀ p ∈ later, 0 ≤ p.elapsed := fun p hp => helapsed p (hlast.later_subset hp)
    have halive : ∀ pause ∈ pauses since seconds, pause < (sharedGaugeTtlSeconds : ℚ) := by
      intro pause hpause
      refine pause_lt_of_sum_lt hlater hseconds hage ?_
      rcases List.mem_append.mp hpause with hmem | hmem
      · exact List.mem_append_left _ (List.map_subset _ (hlast.suffix hshown).subset hmem)
      · exact List.mem_append_right _ hmem
    rw [if_pos halive, if_pos hage]
    simp only [hage, true_and]
    exact Option.ext_iff.symm
  · rw [if_neg hage]
    simp only [hage, false_and, iff_false]
    by_cases halive : ∀ pause ∈ pauses since seconds, pause < (sharedGaugeTtlSeconds : ℚ)
    · obtain ⟨q, hvalue, -⟩ := hreads shown hshown.mem
      rw [if_pos halive]
      refine iff_of_false (fun h => h q hvalue) fun ⟨pause, hpause, hlong⟩ => ?_
      exact absurd (halive pause hpause) (not_lt.mpr hlong)
    · rw [if_neg halive]
      refine iff_of_true (fun q h => by cases h) ?_
      obtain ⟨pause, hlong⟩ := not_forall.mp halive
      obtain ⟨hpause, hlong⟩ := Classical.not_imp.mp hlong
      exact ⟨pause, hpause, not_lt.mp hlong⟩

/-- Gauges of workers that stopped leave the report just where all publishing paused for the time to
live. -/
theorem dead_worker_stops_iff (hnew : server.find? sharedGaugeKey = none)
    (helapsed : ∀ p ∈ published, 0 ≤ p.elapsed) (hseconds : 0 ≤ seconds)
    (hreads : ∀ p ∈ published, p.Reads py) :
    ReportsTheLiving py server published seconds ↔ PausesAfterDeath published seconds := by
  constructor
  · rintro ⟨hlaw, -⟩ last later hlast shown since hshown
    exact (reports_series_iff hnew helapsed hseconds hreads hlast hshown).mp (hlaw last later hlast)
  · intro h
    refine ⟨fun last later hlast => ?_, fun field hfield => ?_⟩
    · have hfield : ∃ shown since, LastOf (fun p => p.field = last.field) published shown since :=
        exists_lastOf hlast.mem rfl
      obtain ⟨shown, since, hshown⟩ := hfield
      exact (reports_series_iff hnew helapsed hseconds hreads hlast hshown).mpr
        (h last later hlast shown since hshown)
    · rw [gaugeReport_eq hnew helapsed hseconds, Dict.get?_filterMap, get?_lapsed,
        get?_gaugesAfter_of_not_published hfield, ite_self]
      rfl

end

/-! One worker alone, and one that died while another went on. -/

def gaugePython : Python :=
  { Python.reading "" (.name "x") with
    repr := fun value =>
      match value with
      | .int n => toString n
      | value => value.typeName
    float := fun text => (decimal? text).map fun n => n }

def publishedBy (pid : Nat) (elapsed : ℚ) (version : Int) : Publish where
  elapsed := elapsed
  worker := ⟨"web", pid⟩
  name := "complylayer_ruleset_version"
  value := .int version
  labels := .ofList [("tenant", "tnt_a")]

theorem dead_worker_stops_alone :
    ReportsTheLiving gaugePython {} [publishedBy 101 0 46] 60 ∧
    ReportsTheLiving gaugePython {} [publishedBy 101 0 46] 120 := by
  have helapsed : ∀ p ∈ [publishedBy 101 0 46], 0 ≤ p.elapsed := by decide +kernel
  have hreads : ∀ p ∈ [publishedBy 101 0 46], p.Reads gaugePython := by
    intro p hp
    rw [List.mem_singleton.mp hp]
    exact ⟨46, rfl, rfl⟩
  have hpauses (seconds : ℚ) : PausesAfterDeath [publishedBy 101 0 46] seconds := by
    intro last later hlast shown since hshown
    obtain ⟨rfl, rfl⟩ := hlast.of_singleton
    obtain ⟨rfl, rfl⟩ := hshown.of_singleton
    rw [pauses, List.map_nil, List.nil_append, List.sum_singleton]
    split
    · rfl
    · rename_i hlong
      exact ⟨seconds, List.mem_singleton_self seconds, not_lt.mp hlong⟩
  exact ⟨(dead_worker_stops_iff rfl helapsed (by decide) hreads).mpr (hpauses 60),
    (dead_worker_stops_iff rfl helapsed (by decide) hreads).mpr (hpauses 120)⟩

theorem dead_worker_lingers :
    ¬ ReportsTheLiving gaugePython {} [publishedBy 101 0 46, publishedBy 102 100 47] 50 := by
  rintro ⟨hlaw, -⟩
  have hlast : LastOf (fun p => p.series = (publishedBy 101 0 46).series)
      [publishedBy 101 0 46, publishedBy 102 100 47] (publishedBy 101 0 46)
      [publishedBy 102 100 47] := ⟨[], rfl, rfl, by decide +kernel⟩
  have hreported : (gaugeReport gaugePython {}
      [publishedBy 101 0 46, publishedBy 102 100 47] 50).get? (publishedBy 101 0 46).field =
        some 46 := by decide +kernel
  have hage : ¬ (pauses [publishedBy 102 100 47] 50).sum < (sharedGaugeTtlSeconds : ℚ) := by
    decide +kernel
  exact hage ((hlaw _ _ hlast 46).mp hreported).1

end ComplyLayer
