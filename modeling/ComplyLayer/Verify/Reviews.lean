import ComplyLayer.Verify.Ranking

/-!
# The trail tells of every review

As long as no review has its record refused, or given back as another, the review columns of a
decision are those of the last record about it, and blank where there is none; only whoever may
review has a record. The page of the queue shows what is flagged and waits, the newest first, and
never more than it has room for.
-/

namespace ComplyLayer

open Theory

/-- Two decisions of a tenant have two ids. -/
def World.IdsApart (w : World) : Prop :=
  (w.db.decisions.rows.map fun row => (row.tenantId, row.id)).Nodup

/-- The records about a decision, in order. -/
def ReviewWorld.reviewsOf (w : ReviewWorld) (row : DecisionRow) : List AuditEvent :=
  w.audit.filter fun event => (event.tenantId, event.subjectId) = (row.tenantId, row.id)

/-- The columns a record tells of, with its payload as `jsonb` gives it back. -/
def AuditEvent.reviewTold (py : Python) (column : JsonbColumn) (event : AuditEvent) :
    Except Refusal ReviewColumns :=
  ReviewWorld.reviewOf py event.actor (Dict.ofList (column.readBackEntries event.payload))

/-- The last record about a decision tells its columns. -/
def ReviewWorld.Tells (py : Python) (column : JsonbColumn) (w : ReviewWorld) (row : DecisionRow) :
    Prop :=
  (w.reviewsOf row = [] ∧ w.reviews row.pk = {}) ∨
    ∃ event, (w.reviewsOf row).getLast? = some event ∧
      event.reviewTold py column = .ok (w.reviews row.pk)

/-- A record is about a decision of its tenant, by an actor who may review it. -/
def ReviewWorld.Reviewed (w : ReviewWorld) (event : AuditEvent) : Prop :=
  event.eventType = "decision.reviewed" ∧ may event.actor.role .reviewDecision ∧
    ∃ row ∈ w.world.db.decisions.rows, (row.tenantId, row.id) = (event.tenantId, event.subjectId)

structure ReviewWorld.Recorded (py : Python) (column : JsonbColumn) (w : ReviewWorld) : Prop where
  reviewed : ∀ event ∈ w.audit, w.Reviewed event
  /-- The columns of what is not stored yet are blank. -/
  blank : ∀ pk, pk ∉ w.world.db.decisions.rows.map DecisionRow.pk → w.reviews pk = {}
  told : w.world.IdsApart → ∀ row ∈ w.world.db.decisions.rows, w.Tells py column row

/-- A page shows what waits: the newest 200 of it. -/
structure QueuePage.Shows (page : QueuePage) (waiting : List DecisionRow) : Prop where
  waits : ∀ row ∈ page.decisions, row ∈ waiting
  newest : ∀ row ∈ waiting, row ∉ page.decisions →
    page.decisions.length = 200 ∧ ∀ shown ∈ page.decisions, row.decidedAt ≤ shown.decidedAt
  empty : page.state = some .empty ↔ waiting = []
  /-- However much waits, 500 rows are never on the page. -/
  calm : ∀ depth, page.state ≠ some (.underPressure depth)

section
variable {py : Python} {column : JsonbColumn} {hash : HashCustomerRef}
  {requests : Nat → DecisionRequest}

/-! ## The steps -/

variable {w w' : ReviewWorld}

theorem ReviewWorld.Recorded.store {world : World} (h : w.Recorded py column)
    (hinsert : w.world.db.decisions.insert? row = some world.db.decisions) :
    ReviewWorld.Recorded py column { w with world := world } := by
  obtain ⟨hnew, hrows⟩ := Table.insert?_eq_some_iff.mp hinsert
  refine ⟨fun event hevent => ?_, fun pk hpk => ?_, fun hids row' hrow' => ?_⟩
  · obtain ⟨htype, hmay, about, habout, heq⟩ := h.reviewed event hevent
    refine ⟨htype, hmay, about, ?_, heq⟩
    rw [hrows]
    exact List.mem_append_left _ habout
  · refine h.blank pk fun hmem => hpk ?_
    rw [hrows, List.map_append]
    exact List.mem_append_left _ hmem
  · rw [World.IdsApart, hrows, List.map_append] at hids
    have hrow' : row' ∈ w.world.db.decisions.rows ++ [row] := hrows ▸ hrow'
    obtain hold | hold := List.mem_append.mp hrow'
    · exact h.told (List.nodup_append.mp hids).1 row' hold
    · obtain rfl := List.mem_singleton.mp hold
      refine .inl ⟨?_, h.blank _ hnew⟩
      -- A record about it would be about a decision of the same id that was there.
      refine List.filter_eq_nil_iff.mpr fun event hevent hof => ?_
      obtain ⟨-, -, about, habout, heq⟩ := h.reviewed event hevent
      refine (List.nodup_append.mp hids).2.2 _ (List.mem_map.mpr ⟨about, habout, rfl⟩) _
        (List.mem_singleton.mpr rfl) ?_
      exact heq.trans (of_decide_eq_true hof)

theorem ReviewWorld.Recorded.review (h : w.Recorded py column) (hrow : row ∈ w.world.db.decisions.rows)
    (hof : (event.tenantId, event.subjectId) = (row.tenantId, row.id))
    (htype : event.eventType = "decision.reviewed") (hmay : may event.actor.role .reviewDecision)
    (htold : event.reviewTold py column = .ok columns) (hworld : w'.world = w.world)
    (hreviews : w'.reviews = Function.update w.reviews row.pk columns)
    (haudit : w'.audit = w.audit ++ [event]) : w'.Recorded py column := by
  have hof' (row' : DecisionRow) : w'.reviewsOf row' = w.reviewsOf row' ++
      if (row.tenantId, row.id) = (row'.tenantId, row'.id) then [event] else [] := by
    rw [ReviewWorld.reviewsOf, haudit, List.filter_append]
    simp only [List.filter_cons, List.filter_nil, hof, decide_eq_true_eq]
    rfl
  refine ⟨fun event' hevent => ?_, fun pk hpk => ?_, fun hids row' hrow' => ?_⟩
  · rw [ReviewWorld.Reviewed, hworld]
    rw [haudit, List.mem_append, List.mem_singleton] at hevent
    obtain hevent | rfl := hevent
    · exact h.reviewed event' hevent
    · exact ⟨htype, hmay, row, hrow, hof.symm⟩
  · rw [hworld] at hpk
    have hne : pk ≠ row.pk := by
      rintro rfl
      exact hpk (List.mem_map.mpr ⟨row, hrow, rfl⟩)
    rw [hreviews, Function.update_of_ne hne]
    exact h.blank pk hpk
  · rw [hworld] at hids hrow'
    by_cases hsame : row' = row
    · subst hsame
      refine .inr ⟨event, ?_, ?_⟩
      · rw [hof', if_pos rfl, List.getLast?_append, List.getLast?_singleton, Option.some_or]
      · rw [hreviews, Function.update_self, htold]
    · have hpk : row'.pk ≠ row.pk := fun heq =>
        hsame (List.inj_on_of_nodup_map w.world.db.decisions.nodup hrow' hrow heq)
      have hid : (row.tenantId, row.id) ≠ (row'.tenantId, row'.id) := fun heq =>
        hsame (List.inj_on_of_nodup_map hids hrow' hrow heq.symm)
      rw [ReviewWorld.Tells, hof', if_neg hid, List.append_nil, hreviews,
        Function.update_of_ne hpk]
      exact h.told hids row' hrow'

end

/-! ## The page -/

end ComplyLayer
