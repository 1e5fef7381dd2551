import Monutchee.System.Refinement

/-!
# Reloading the journal (storage.cpp:163-177)

What a new Backend makes of the journal that an earlier one wrote. The constructor decodes
the file and then fills an empty port from the defaults, so what `apply` acknowledged comes
back only where that step changes nothing.
-/

namespace Monutchee.System
open Lib Lib.Act

variable {S : Site} {w w' : World}

namespace Backend

theorem applyForward_ret {config : Configuration} {u : Unit}
    (h : applyForward config w = (.ret u, w')) :
    w'.journal = some w'.state ∧ w'.state.configuration = config := by
  obtain ⟨_, w₁, -, h⟩ := bind_ret h
  obtain ⟨_, w₂, -, h⟩ := bind_ret h
  have hp := persist_ret (w := { w₂ with
    state := w₂.state.configure config, trace := [] ++ w₂.trace }) h
  rw [hp.journal, hp.state]
  exact ⟨rfl, rfl⟩

/-- The handler of apply raises again, so an apply that returns came through its forward part. -/
theorem apply_ret {config : Configuration} {u : Unit} (h : apply S config w = (.ret u, w')) :
    w'.journal = some w'.state ∧ w'.state.configuration = config := by
  obtain ⟨_, w₁, -, h⟩ := bind_ret h
  obtain ⟨_, w₂, -, h⟩ := bind_ret h
  obtain ⟨_, w₃, -, h⟩ := bind_ret h
  obtain ⟨_, w₄, -, h⟩ := bind_ret h
  rw [gets_bind] at h
  obtain ⟨_, w₅, -, h⟩ := bind_ret h
  unfold attempt at h
  rcases ho : applyForward config w₅ with ⟨o, w₆⟩
  rw [ho] at h
  cases o with
  | ret v =>
    injection h with _ h
    subst h
    exact applyForward_ret ho
  | raise e =>
    obtain ⟨_, w₇, -, h⟩ := bind_ret h
    simp at h
  | crash => simp at h

theorem construct_ret {u : Unit} (h : construct S w = (.ret u, w')) :
    w'.alive = true ∧ w'.state = loaded S.profile w.journal ∧ w'.journal = w.journal ∧
      w'.failed = false ∧ w'.jobDeadline = 0 := by
  obtain ⟨c, w₁, w₂, hc, hop, rfl⟩ := effect_ret h
  have hf := authority_frame c.writes w₂
  split at hop
  · simp at hop
  · injection hop with _ hop
    subst hop
    rw [hf.alive, hf.state, hf.journal, hf.failed, hf.jobDeadline, hc]
    exact ⟨rfl, rfl, rfl, rfl, rfl⟩

/-- The constructor's step for old journals, read on the configuration. -/
theorem migrate_configuration (P : Profile) (s : State) :
    (migrate P s).configuration = s.configuration ↔
      (s.configuration.time.ptpInterface = [] → P.defaults.time.ptpInterface = []) := by
  unfold migrate
  split
  · rename_i he
    have hp : s.configuration.time.ptpInterface = [] := List.isEmpty_iff.mp he
    constructor
    · intro h _
      have ht := congrArg (fun c => c.time.ptpInterface) h
      exact ht.trans hp
    · intro h
      have hd := h hp
      rcases s with ⟨⟨sys, sync, zone, port, servers⟩, i, pe, j, ri, ja, jr⟩
      simp only at hp
      subst hp
      simp [hd]
  · rename_i he
    exact ⟨fun _ hp => absurd (List.isEmpty_iff.mpr hp) he, fun _ => rfl⟩

end Backend

theorem perform_apply {config : Configuration} {script : List Choice} {r : Backend.Reply}
    (h : perform S (.apply config) script w = (.ret r, w')) :
    w'.journal = some w'.state ∧ w'.state.configuration = config := by
  unfold perform at h
  rcases hg : guarded S (.apply config) (entered (.apply config) script w) with ⟨o, w₁⟩
  rw [hg] at h
  cases o with
  | ret r' =>
    injection h with _ h
    subst h
    obtain ⟨_, w₂, hc, hk⟩ := bind_ret hg
    obtain ⟨_, w₃, ha, hd⟩ := bind_ret hc
    injection hd with _ hd
    subst hd
    obtain ⟨_, w₄, hp, hd⟩ := bind_ret hk
    injection hd with _ hd
    subst hd
    have hf := (checkpoint_spec (S := S) w₃).post _ _ hp
    change w₄.journal = some w₄.state ∧ w₄.state.configuration = config
    rw [hf.journal, hf.state]
    exact Backend.apply_ret ha
  | raise e => simp at h
  | crash => simp at h

/-- Preferences that `apply` acknowledged are the ones a new Backend reports, unless they
leave the port empty and the defaults name one. -/
theorem acknowledged_preferences (S : Site) (w w' w'' : World) (config : Configuration)
    (script built : List Choice) (r : Backend.Reply) (u : Unit)
    (happly : perform S (.apply config) script w = (.ret r, w'))
    (hnew : Backend.construct S { w' with alive := false, script := built } = (.ret u, w'')) :
    w''.state.configuration = config ↔
      (config.time.ptpInterface = [] → S.profile.defaults.time.ptpInterface = []) := by
  obtain ⟨hj, hc⟩ := perform_apply happly
  have hs : w''.state = Backend.migrate S.profile w'.state := by
    rw [(Backend.construct_ret hnew).2.1, hj]
    rfl
  rw [hs, ← hc]
  exact Backend.migrate_configuration S.profile w'.state

namespace Fixture

/-- The test configuration with synchronization by the local clock. -/
def localTime : Configuration := { config with time := { synchronization := ascii "local" } }

/-- The site of the tests, where the product's port is end0. -/
def ported : Site :=
  { site with profile := { site.profile with
      defaults := { config with time := { ptpInterface := ascii "end0" } } } }

end Fixture

theorem acknowledged_preferences_kept :
    ∃ w' w'', perform Fixture.site (.apply Fixture.localTime) []
        (run Fixture.site Fixture.device Fixture.started) = (.ret .done, w') ∧
      Backend.construct Fixture.site { w' with alive := false, script := [] } = (.ret (), w'') ∧
      w''.state.configuration = Fixture.localTime := by
  have hr : (perform Fixture.site (.apply Fixture.localTime) []
      (run Fixture.site Fixture.device Fixture.started)).1 = .ret .done := by decide
  refine ⟨_, _, Prod.ext hr rfl, rfl, ?_⟩
  exact (acknowledged_preferences Fixture.site _ _ _ Fixture.localTime [] [] .done ()
    (Prod.ext hr rfl) rfl).mpr (by decide)

/-- A device whose port was cleared by apply comes back with the product's port. -/
theorem cleared_port_returns :
    Validation.validate Fixture.ported.profile.defaults = .ok () ∧
    ∃ w' w'', perform Fixture.ported (.apply Fixture.localTime) []
        (run Fixture.ported Fixture.device Fixture.started) = (.ret .done, w') ∧
      Backend.construct Fixture.ported { w' with alive := false, script := [] } = (.ret (), w'') ∧
      w'.state.configuration = Fixture.localTime ∧ w''.state.configuration ≠ Fixture.localTime := by
  have hr : (perform Fixture.ported (.apply Fixture.localTime) []
      (run Fixture.ported Fixture.device Fixture.started)).1 = .ret .done := by decide
  refine ⟨by decide, _, _, Prod.ext hr rfl, rfl, ?_, ?_⟩
  · decide
  · decide

end Monutchee.System
