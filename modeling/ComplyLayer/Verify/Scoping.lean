import ComplyLayer.Tenancy.Scope
import ComplyLayer.Theory.Runs

/-!
# Scopes nest

A scope that is left restores the tenant of before: by the write in its `finally` where its savepoint
is released, and by the rollback where an exception left it. `Nested` is what the open blocks, their
savepoints and the setting have in common.
-/

namespace ComplyLayer

open Theory

/-- Nothing changed but that NULL is left empty. -/
def Restores (before after : Option String) : Prop := after = before ∨ after = Connection.restored before

theorem restores_rfl : Restores v v := .inl rfl

theorem Restores.trans (h : Restores u v) (h' : Restores v w) : Restores u w := by
  obtain rfl | rfl := h
  · exact h'
  · obtain rfl | rfl := h'
    · exact .inr rfl
    · exact .inr rfl

theorem Restores.getD_eq (h : Restores v w) : w.getD "" = v.getD "" := by
  obtain rfl | rfl := h
  · rfl
  · rfl

theorem Restores.eq_some (h : Restores (some value) w) : w = some value := by
  obtain rfl | rfl := h
  · rfl
  · rfl

theorem getD_currentTenant (c : Connection) : c.currentTenant.getD "" = c.setting.getD "" := by
  rw [Connection.currentTenant]
  cases c.setting with
  | none => rfl
  | some value =>
    by_cases hempty : value = ""
    · rw [hempty]
      rfl
    · rw [Option.filter_some_pos (by exact decide_eq_true hempty)]

/-- The setting is the tenant of the innermost scope, and each block knows what it was before. -/
inductive Nested : List Block → List (Option String) → Option String → Prop where
  | outside (h : setting.getD "" = "") : Nested [] [] setting
  | atomic (h : Nested blocks saved before) (hsame : Restores before setting) :
      Nested (.atomic :: blocks) (before :: saved) setting
  | scope (h : Nested blocks saved before) (hprevious : previous.getD "" = before.getD "") :
      Nested (.scope tenantId previous :: blocks) (before :: saved) (some tenantId)

theorem Nested.restores (h : Nested blocks saved setting) (hsame : Restores setting setting') :
    Nested blocks saved setting' := by
  cases h with
  | outside h => exact .outside (hsame.getD_eq.trans h)
  | atomic h hbefore => exact .atomic h (hbefore.trans hsame)
  | scope h hprevious =>
    cases hsame.eq_some
    exact .scope h hprevious

/-- What is left of a block: the setting of before. -/
theorem exitAtomic_spec (c : Connection) (before : Option String) (outer : List (Option String))
    (raised : Bool) (hsaved : c.savepoints = before :: outer) (hsame : Restores before c.setting) :
    ∃ setting, c.exitAtomic raised = ⟨setting, outer⟩ ∧ Restores before setting := by
  rw [Connection.exitAtomic, hsaved]
  cases outer with
  | nil => exact ⟨_, rfl, .inr rfl⟩
  | cons next outer =>
    cases raised with
    | false => exact ⟨_, rfl, hsame⟩
    | true => exact ⟨_, rfl, .inr rfl⟩

def Scoping.Nests (s : Scoping) : Prop :=
  Nested s.blocks s.connection.savepoints s.connection.setting

theorem Scoping.Nests.enterScope (h : Scoping.Nests s) (tenantId : String) :
    (s.enterScope tenantId).Nests :=
  .scope h (getD_currentTenant s.connection)

theorem Scoping.Nests.enterAtomic (h : Scoping.Nests s) : s.enterAtomic.Nests :=
  .atomic h restores_rfl

/-- The end of a block, of which its beginning is known. -/
theorem Scoping.Nests.leave (h : Scoping.Nests s) (hblocks : s.blocks = block :: others)
    (raised : Bool) : ∃ before outer after, s.connection.savepoints = before :: outer ∧
      s.leave raised = some ⟨⟨after, outer⟩, others⟩ ∧ Restores before after ∧
      Nested others outer before := by
  rcases s with ⟨⟨setting, savepoints⟩, _⟩
  cases hblocks
  cases h with
  | @atomic _ outer before _ h hsame =>
    obtain ⟨after, hexit, hrestores⟩ :=
      exitAtomic_spec ⟨setting, before :: outer⟩ before outer raised rfl hsame
    refine ⟨before, outer, after, rfl, ?_, hrestores, h⟩
    simp only [Scoping.leave, hexit]
  | @scope _ outer before tenantId previous h hprevious =>
    -- the write of `finally` already is what a rollback would restore
    have hwritten : (⟨some tenantId, before :: outer⟩ : Connection).set (previous.getD "") =
        ⟨Connection.restored before, before :: outer⟩ := by
      rw [hprevious]
      rfl
    obtain ⟨after, hexit, hrestores⟩ :=
      exitAtomic_spec ⟨Connection.restored before, before :: outer⟩ before outer raised rfl (.inr rfl)
    refine ⟨before, outer, after, rfl, ?_, hrestores, h⟩
    simp only [Scoping.leave, hwritten, hexit]

theorem nests_step (s : Scoping) (a : ScopeEvent) (t : Scoping) (h : s.Nests)
    (hstep : scopeStep s a = some t) : t.Nests := by
  cases a with
  | scope tenantId =>
    cases hstep
    exact h.enterScope tenantId
  | atomic =>
    cases hstep
    exact h.enterAtomic
  | leave raised =>
    cases hblocks : s.blocks with
    | nil =>
      rw [scopeStep, Scoping.leave, hblocks] at hstep
      cases hstep
    | cons block blocks =>
      obtain ⟨before, outer, setting, -, hleave, hrestores, hnested⟩ := h.leave hblocks raised
      cases hleave.symm.trans hstep
      exact hnested.restores hrestores

theorem nests_start : Scoping.Nests {} := .outside rfl

theorem Nested.innermost (h : Nested blocks saved setting)
    (hinnermost : Scoping.innermost ⟨⟨setting, saved⟩, blocks⟩ = some tenantId) :
    setting = some tenantId := by
  induction h with
  | outside => cases hinnermost
  | atomic _ hsame ih =>
    cases ih hinnermost
    exact hsame.eq_some
  | scope => exact congrArg some (Option.some.inj hinnermost)

theorem Nested.unset (h : Nested blocks saved setting)
    (hinnermost : Scoping.innermost ⟨⟨setting, saved⟩, blocks⟩ = none) : setting.getD "" = "" := by
  induction h with
  | outside h => exact h
  | atomic _ hsame ih => exact hsame.getD_eq.trans (ih hinnermost)
  | scope => cases hinnermost

/-- Blocks are entered and left in pairs, the innermost first. -/
inductive WellNested : List ScopeEvent → Prop where
  | nil : WellNested []
  | scope (tenantId : String) (raised : Bool) (hbody : WellNested body) (hrest : WellNested rest) :
      WellNested (.scope tenantId :: (body ++ .leave raised :: rest))
  | atomic (raised : Bool) (hbody : WellNested body) (hrest : WellNested rest) :
      WellNested (.atomic :: (body ++ .leave raised :: rest))

/-- The same blocks are open, and the setting is what it was. -/
structure Scoping.Back (s t : Scoping) : Prop where
  blocks : t.blocks = s.blocks
  savepoints : t.connection.savepoints = s.connection.savepoints
  setting : Restores s.connection.setting t.connection.setting

theorem Scoping.Back.rfl {s : Scoping} : s.Back s := ⟨Eq.refl _, Eq.refl _, restores_rfl⟩

theorem Scoping.Back.trans (h : Scoping.Back s t) (h' : Scoping.Back t u) : Scoping.Back s u :=
  ⟨h'.blocks.trans h.blocks, h'.savepoints.trans h.savepoints, h.setting.trans h'.setting⟩

theorem Scoping.Back.nests (h : Scoping.Back s t) (hs : s.Nests) : t.Nests := by
  rw [Scoping.Nests, h.blocks, h.savepoints]
  exact hs.restores h.setting

/-- After what is left of a block, everything is as before it. -/
theorem back_of_leave {s : Scoping} (hopened : Scoping.Nests opened)
    (hblocks : opened.blocks = block :: s.blocks)
    (hsavepoints : opened.connection.savepoints = s.connection.setting :: s.connection.savepoints)
    (hbody : Scoping.Back opened t) (raised : Bool) :
    ∃ u, t.leave raised = some u ∧ s.Back u := by
  obtain ⟨before, outer, setting, hsaved, hleave, hrestores, -⟩ :=
    (hbody.nests hopened).leave (hbody.blocks.trans hblocks) raised
  obtain ⟨rfl, rfl⟩ := List.cons.inj (hsaved.symm.trans (hbody.savepoints.trans hsavepoints))
  exact ⟨_, hleave, Eq.refl _, Eq.refl _, hrestores⟩

/-- A well nested sequence runs, and leaves everything as it was. -/
theorem WellNested.back (h : WellNested events) (hs : Scoping.Nests s) :
    ∃ t, run scopeStep s events = some t ∧ s.Back t := by
  induction h generalizing s with
  | nil => exact ⟨s, rfl, .rfl⟩
  | @scope body rest tenantId raised _ _ ihbody ihrest =>
    have hopened := hs.enterScope tenantId
    obtain ⟨t, hrun, hback⟩ := ihbody hopened
    obtain ⟨u, hleave, hu⟩ := back_of_leave hopened rfl rfl hback raised
    obtain ⟨v, hrest, hv⟩ := ihrest (hu.nests hs)
    refine ⟨v, ?_, hu.trans hv⟩
    exact run_cons_eq_some.mpr ⟨_, rfl,
      run_append_eq_some.mpr ⟨t, hrun, run_cons_eq_some.mpr ⟨u, hleave, hrest⟩⟩⟩
  | @atomic body rest raised _ _ ihbody ihrest =>
    have hopened := hs.enterAtomic
    obtain ⟨t, hrun, hback⟩ := ihbody hopened
    obtain ⟨u, hleave, hu⟩ := back_of_leave hopened rfl rfl hback raised
    obtain ⟨v, hrest, hv⟩ := ihrest (hu.nests hs)
    refine ⟨v, ?_, hu.trans hv⟩
    exact run_cons_eq_some.mpr ⟨_, rfl,
      run_append_eq_some.mpr ⟨t, hrun, run_cons_eq_some.mpr ⟨u, hleave, hrest⟩⟩⟩

/-- Whatever was entered and left, a statement runs with the tenant of the innermost scope, without
one outside of all scopes; and a scope that is left leaves the setting as it was. -/
theorem tenant_scope_nests (hrun : run scopeStep {} events = some s) :
    (∀ tenantId, s.innermost = some tenantId → s.connection.setting = some tenantId) ∧
      (s.innermost = none → s.connection.currentTenant = none) ∧
      ∀ tenantId body raised, WellNested body →
        ∃ t, run scopeStep s (.scope tenantId :: (body ++ [.leave raised])) = some t ∧
          t.blocks = s.blocks ∧ Restores s.connection.setting t.connection.setting := by
  have hs := run_invariant Scoping.Nests nests_step nests_start hrun
  refine ⟨fun tenantId hinnermost => hs.innermost hinnermost, fun hinnermost => ?_,
    fun tenantId body raised hbody => ?_⟩
  · have hunset := hs.unset hinnermost
    rw [← getD_currentTenant] at hunset
    cases hcurrent : s.connection.currentTenant with
    | none => rfl
    | some value =>
      rw [hcurrent] at hunset
      rw [Connection.currentTenant, Option.filter_eq_some_iff] at hcurrent
      exact absurd hunset (of_decide_eq_true hcurrent.2)
  · obtain ⟨t, hrun, hback⟩ := (WellNested.scope tenantId raised hbody .nil).back hs
    exact ⟨t, hrun, hback.blocks, hback.setting⟩

/-- An inner scope is left by an exception. -/
theorem tenant_scope_nests_inner_raised : ∃ s,
    run scopeStep {} [.scope "tnt_alpha", .scope "tnt_beta", .leave true] = some s ∧
      s.connection.setting = some "tnt_alpha" := by
  refine ⟨_, rfl, ?_⟩
  have hrun : run scopeStep {} [.scope "tnt_alpha", .scope "tnt_beta", .leave true] =
      some ⟨⟨some "tnt_alpha", [none]⟩, [.scope "tnt_alpha" none]⟩ := by
    decide
  exact (tenant_scope_nests hrun).1 "tnt_alpha" rfl

end ComplyLayer
