import Monutchee.System.Rejection
import Monutchee.System.Reload

/-!
# Applying preferences

apply() (storage.cpp:329-357) asks the platform for the new preferences and the SSH
policy, assigns, and writes the journal; if any of these fails it puts the old
configuration back in the same three steps. A rollback that fails is reported under its
own error.
-/

namespace Monutchee.System
open Lib Lib.Act

variable {S : Site} {w₀ w w' : World} {config : Configuration} {es : List Entry}

/-! ### What a call did -/

/-- The last calls of platform_.preferences and of sshBootPolicy, each with its success, and
whether a journal write failed. -/
structure Tally where
  preferences : Option (Configuration × Bool) := none
  ssh : Option (Bool × Bool) := none
  lost : Bool := false
  deriving DecidableEq, Repr

def Tally.add (T : Tally) : Entry → Tally
  | .preferences c ok => { T with preferences := some (c, ok) }
  | .ssh enabled ok => { T with ssh := some (enabled, ok) }
  | .journalFailed _ _ _ => { T with lost := true }
  | _ => T

/-- Histories are newest first. -/
def tally (es : List Entry) : Tally := es.foldr (fun e T => T.add e) {}

/-- The platform took this configuration, in both calls. -/
def Tally.holds (T : Tally) (c : Configuration) : Prop :=
  T.preferences = some (c, true) ∧ T.ssh = some (c.system.sshEnabled, true)

/-- Neither call was made. -/
def Tally.untouched (T : Tally) : Prop := T.preferences = none ∧ T.ssh = none

/-- Entries that do not count. -/
def Entry.uncounted : Entry → Bool
  | .preferences _ _ | .ssh _ _ | .journalFailed _ _ _ => false
  | _ => true

theorem add_uncounted {e : Entry} (he : e.uncounted = true) (T : Tally) : T.add e = T := by
  cases e with
  | preferences c ok => simp [Entry.uncounted] at he
  | ssh enabled ok => simp [Entry.uncounted] at he
  | journalFailed old new left => simp [Entry.uncounted] at he
  | _ => rfl

theorem tally_append (hes : ∀ e ∈ es, e.uncounted = true) (fs : List Entry) :
    tally (es ++ fs) = tally fs := by
  induction es with
  | nil => rfl
  | cons e es ih =>
    have ih := ih fun x hx => hes x (List.mem_cons_of_mem _ hx)
    change (tally (es ++ fs)).add e = _
    rw [ih]
    exact add_uncounted (hes e (List.mem_cons_self ..)) _

/-- Since `w₀` the call did what the tally says. -/
def Tallied (w₀ : World) (T : Tally) (w : World) : Prop :=
  ∃ es, w.trace = es ++ w₀.trace ∧ tally es = T

theorem Tallied.refl (w : World) : Tallied w {} w := ⟨[], rfl, rfl⟩

theorem Tallied.adds {T : Tally} (h : Tallied w₀ T w) (ha : Adds Entry.uncounted w w') :
    Tallied w₀ T w' := by
  obtain ⟨es, ht, hT⟩ := h
  obtain ⟨fs, hu, hfs⟩ := ha
  refine ⟨fs ++ es, by rw [hu, ht, List.append_assoc], ?_⟩
  rw [tally_append hfs, hT]

/-- One more entry, and what may pass after it. -/
theorem Tallied.grown {T : Tally} {e : Entry} (h : Tallied w₀ T w) (hg : Grown [e] w.trace w'.trace) :
    Tallied w₀ (T.add e) w' := by
  obtain ⟨es, ht, hT⟩ := h
  obtain ⟨ws, hw, hu⟩ := hg
  refine ⟨ws ++ e :: es, by rw [hu, ht]; simp, ?_⟩
  have hws : ∀ x ∈ ws, x.uncounted = true := by
    intro x hx
    have hp := hw x hx
    cases x with
    | written v d => rfl
    | reading u => rfl
    | _ => simp [Entry.passing] at hp
  rw [tally_append hws]
  change (tally es).add e = _
  rw [hT]

theorem uncounted_lenient : Lenient (Adds Entry.uncounted) := by
  refine adds_lenient ?_ fun _ _ => rfl
  intro e he
  cases e with
  | preferences c ok => simp [Entry.checks] at he
  | ssh enabled ok => simp [Entry.checks] at he
  | journalFailed old new left => simp [Entry.checks] at he
  | _ => rfl

namespace Backend

def rollbackError : Error := ⟨.applyFailed, ascii "preferences failed and rollback needs recovery"⟩

/-- A write that fails is on record and sets the latch. -/
theorem persist_lost {e : Error} (hf : w.failed = false) (h : persist w = (.raise e, w')) :
    w'.state = w.state ∧ w'.failed = true ∧
      ∃ left, Grown [.journalFailed w.journal w.state left] w.trace w'.trace := by
  obtain ⟨-, hs, hl⟩ := persist_raise h
  refine ⟨hs, hl, w.draw.1.leaves, ?_⟩
  have hcore := draw_core w
  rw [persist_of_sound hf] at h
  generalize w.draw.2 = w₁ at hcore h
  split at h
  · simp at h
  · split at h
    · injection h with _ h
      obtain ⟨ws, hw, ht⟩ := (authority_frame w.draw.1.writes { w₁ with
        failed := true
        journal := if w.draw.1.leaves then some w₁.state else w₁.journal
        trace := .journalFailed w₁.journal w₁.state w.draw.1.leaves :: w₁.trace }).trace
      refine ⟨ws, hw, ?_⟩
      rw [← h, ht]
      simp only [hcore]
      rfl
    · simp at h

/-! ### The two halves -/

/-- How the forward half ends: in a platform call, in the write, or well. -/
theorem applyForward_failed {e : Error} {T : Tally} (hT : Tallied w₀ T w) (hf : w.failed = false)
    (h : applyForward config w = (.raise e, w')) :
    (Spared w w' ∧ ∃ T', Tallied w₀ T' w') ∨
      (w'.failed = true ∧ w'.state = w.state.configure config ∧
        ∃ T', T'.lost = true ∧ Tallied w₀ T' w') := by
  rcases bind_raise h with ⟨_, w₁, h₁, h⟩ | h₁
  · have hT₁ := hT.grown (platformCall_ret h₁).trace
    have hs₁ := (platformCall_spared _ _).result h₁
    rcases bind_raise h with ⟨_, w₂, h₂, h⟩ | h₂
    · have hT₂ := hT₁.grown (platformCall_ret h₂).trace
      have hs₂ := spared_lenient.trans _ _ _ hs₁ ((platformCall_spared _ _).result h₂)
      rw [setState, modify_bind] at h
      have hT₃ : Tallied w₀ _ { w₂ with
        state := w₂.state.configure config, trace := [] ++ w₂.trace } := hT₂
      obtain ⟨hs, hl, left, hg⟩ := persist_lost (w := { w₂ with
        state := w₂.state.configure config, trace := [] ++ w₂.trace }) (hs₂.failed.trans hf) h
      refine .inr ⟨hl, ?_, _, rfl, hT₃.grown hg⟩
      rw [hs, hs₂.state]
    · exact .inl ⟨spared_lenient.trans _ _ _ hs₁ ((platformCall_spared _ _).result h₂), _,
        hT₁.grown (platformCall_raise h₂).trace⟩
  · exact .inl ⟨(platformCall_spared _ _).result h₁, _, hT.grown (platformCall_raise h₁).trace⟩

theorem applyForward_installs {u : Unit} {T : Tally} (hT : Tallied w₀ T w)
    (h : applyForward config w = (.ret u, w')) :
    w'.state = w.state.configure config ∧ w'.journal = some w'.state ∧
      ∃ T', T'.holds config ∧ Tallied w₀ T' w' := by
  obtain ⟨_, w₁, h₁, h⟩ := bind_ret h
  obtain ⟨_, w₂, h₂, h⟩ := bind_ret h
  rw [setState, modify_bind] at h
  have hp := persist_ret h
  have hT₂ := (hT.grown (platformCall_ret h₁).trace).grown (platformCall_ret h₂).trace
  have hs : w'.state = w.state.configure config := by
    rw [hp.state, (platformCall_ret h₂).state, (platformCall_ret h₁).state]
  have hT₃ : Tallied w₀ _ { w₂ with
    state := w₂.state.configure config, trace := [] ++ w₂.trace } := hT₂
  exact ⟨hs, by rw [hp.journal, hp.state], _, ⟨rfl, rfl⟩, hT₃.grown hp.trace⟩

/-- A rollback that raises does so under its own error, with the old configuration in memory. -/
theorem applyRollback_raise {e : Error} {T : Tally} {previous : Configuration} (hT : Tallied w₀ T w)
    (h : applyRollback previous w = (.raise e, w')) :
    e = rollbackError ∧ w'.state.configuration = previous ∧
      ∃ T', Tallied w₀ T' w' ∧ (T.lost = true → T'.lost = true) ∧
        (w'.journal = w.journal ∨ T'.lost = true) := by
  unfold applyRollback at h
  rw [setState, modify_bind] at h
  generalize hv : ({ w with
    state := { w.state with configuration := previous }, trace := [] ++ w.trace } : World) = v at h
  have hconf : v.state.configuration = previous := by rw [← hv]
  have hj : v.journal = w.journal := by rw [← hv]
  have hTv : Tallied w₀ T v := by
    rw [← hv]
    exact hT
  unfold attempt at h
  rcases hm : (platformPreferences previous >>= fun _ =>
      platformSshBootPolicy previous.system.sshEnabled >>= fun _ => persist) v with ⟨o, w₁⟩
  rw [hm] at h
  cases o with
  | ret u => simp at h
  | crash => simp at h
  | raise e₁ =>
    injection h with he hw
    injection he with he
    subst he hw
    refine ⟨rfl, ?_⟩
    rcases bind_raise hm with ⟨_, w₂, h₂, hm⟩ | h₂
    · have hf₂ := platformCall_ret h₂
      have hT₂ := hTv.grown hf₂.trace
      rcases bind_raise hm with ⟨_, w₃, h₃, hm⟩ | h₃
      · have hf₃ := platformCall_ret h₃
        have hT₃ := hT₂.grown hf₃.trace
        by_cases hl : w₃.failed = true
        · rw [persist_of_failed hl] at hm
          injection hm with _ hm
          subst hm
          refine ⟨by rw [hf₃.state, hf₂.state, hconf], _, hT₃, fun hlost => hlost, .inl ?_⟩
          rw [hf₃.journal, hf₂.journal, hj]
        · obtain ⟨hs, -, left, hg⟩ := persist_lost (by simpa using hl) hm
          exact ⟨by rw [hs, hf₃.state, hf₂.state, hconf], _, hT₃.grown hg, fun _ => rfl, .inr rfl⟩
      · have hf₃ := platformCall_raise h₃
        refine ⟨by rw [hf₃.state, hf₂.state, hconf], _, hT₂.grown hf₃.trace, fun hlost => hlost, .inl ?_⟩
        rw [hf₃.journal, hf₂.journal, hj]
    · have hf₂ := platformCall_raise h₂
      refine ⟨by rw [hf₂.state, hconf], _, hTv.grown hf₂.trace, fun hlost => hlost, .inl ?_⟩
      rw [hf₂.journal, hj]

theorem applyRollback_ret {u : Unit} {T : Tally} {previous : Configuration} (hT : Tallied w₀ T w)
    (h : applyRollback previous w = (.ret u, w')) :
    w.failed = false ∧ w'.state.configuration = previous ∧ w'.journal = some w'.state ∧
      ∃ T', T'.holds previous ∧ Tallied w₀ T' w' := by
  unfold applyRollback at h
  rw [setState, modify_bind] at h
  generalize hv : ({ w with
    state := { w.state with configuration := previous }, trace := [] ++ w.trace } : World) = v at h
  have hTv : Tallied w₀ T v := by
    rw [← hv]
    exact hT
  unfold attempt at h
  rcases hm : (platformPreferences previous >>= fun _ =>
      platformSshBootPolicy previous.system.sshEnabled >>= fun _ => persist) v with ⟨o, w₁⟩
  rw [hm] at h
  cases o with
  | raise e => simp at h
  | crash => simp at h
  | ret u' =>
    injection h with _ hw
    subst hw
    obtain ⟨_, w₂, h₂, hm⟩ := bind_ret hm
    obtain ⟨_, w₃, h₃, hm⟩ := bind_ret hm
    have hf₂ := platformCall_ret h₂
    have hf₃ := platformCall_ret h₃
    have hp := persist_ret hm
    refine ⟨?_, ?_, by rw [hp.journal, hp.state], _, ⟨rfl, rfl⟩,
      ((hTv.grown hf₂.trace).grown hf₃.trace).grown hp.trace⟩
    · have hsound := hp.sound
      rw [hf₃.failed, hf₂.failed, ← hv] at hsound
      exact hsound
    · rw [hp.state, hf₃.state, hf₂.state, ← hv]

/-! ### The whole operation -/

/-- How apply() raises: a check refused it, the rollback failed too, or it was rolled back. -/
inductive ApplyRaised (w : World) (e : Error) (w' : World) : Prop where
  | refused (spared : Spared w w') (quiet : Adds Entry.uncounted w w')
  | recovery (error : e = rollbackError) (memory : w'.state.configuration = w.state.configuration)
      (T : Tally) (tallied : Tallied w T w') (journal : w'.journal = w.journal ∨ T.lost = true)
  | restored (memory : w'.state.configuration = w.state.configuration)
      (journal : w'.journal = some w'.state) (T : Tally) (tallied : Tallied w T w')
      (platform : T.holds w.state.configuration)

theorem apply_fails {e : Error} (h : apply S config w = (.raise e, w')) : ApplyRaised w e w' := by
  -- Through a check: the world before it is the world after it.
  have hcheck : ∀ {α β : Type} {m : Prog α} {f : α → Prog β} {v : World},
      Spared w v ∧ Adds Entry.uncounted w v → Within Spared m v → Within (Adds Entry.uncounted) m v →
      (m >>= f) v = (.raise e, w') →
      (∃ a v', (Spared w v' ∧ Adds Entry.uncounted w v') ∧ m v = (.ret a, v') ∧ f a v' = (.raise e, w')) ∨
        ApplyRaised w e w' := by
    intro α β m f v hv hs ha h
    rcases bind_raise h with ⟨a, v', hm, h⟩ | hm
    · exact .inl ⟨a, v', ⟨spared_lenient.trans _ _ _ hv.1 (hs.result hm),
        Adds.trans _ _ _ hv.2 (ha.result hm)⟩, hm, h⟩
    · exact .inr (.refused (spared_lenient.trans _ _ _ hv.1 (hs.result hm))
        (Adds.trans _ _ _ hv.2 (ha.result hm)))
  have hu := uncounted_lenient
  unfold apply at h
  rcases hcheck ⟨spared_lenient.refl w, Adds.refl w⟩ (spared_lenient.idle w) (hu.idle w) h with
    ⟨_, w₁, hw₁, hidle, h⟩ | hr
  rotate_left
  · exact hr
  rcases hcheck hw₁ (Within.lift spared_lenient.refl _ w₁) (Within.lift hu.refl _ w₁) h with
    ⟨_, w₂, hw₂, -, h⟩ | hr
  rotate_left
  · exact hr
  rcases hcheck hw₂ (spared_lenient.checkHostname config w₂) (hu.checkHostname config w₂) h with
    ⟨_, w₃, hw₃, -, h⟩ | hr
  rotate_left
  · exact hr
  rcases hcheck hw₃ (spared_lenient.validateConfiguration config w₃)
    (hu.validateConfiguration config w₃) h with ⟨_, w₄, hw₄, -, h⟩ | hr
  rotate_left
  · exact hr
  rw [gets_bind] at h
  rcases hcheck hw₄ (Within.require spared_lenient.refl _ _ w₄) (Within.require hu.refl _ _ w₄) h with
    ⟨_, w₅, hw₅, hreq, h⟩ | hr
  rotate_left
  · exact hr
  obtain ⟨-, rfl⟩ := require_ret hreq
  have hf : w₅.failed = false := hw₅.1.failed.trans (idle_ret hidle)
  have hT := (Tallied.refl w).adds hw₅.2
  unfold attempt at h
  rcases hm : applyForward config w₅ with ⟨o, w₆⟩
  rw [hm] at h
  cases o with
  | ret u => simp at h
  | crash => simp at h
  | raise e₆ =>
    rw [hw₅.1.state] at h
    rcases bind_raise h with ⟨_, w₇, hback, h⟩ | hback
    · injection h with he hw
      subst hw
      rcases applyForward_failed hT hf hm with ⟨hs, T', hT'⟩ | ⟨hl, -, T', -, hT'⟩
      · obtain ⟨-, hconf, hj, T'', hholds, hT''⟩ := applyRollback_ret hT' hback
        exact .restored hconf hj T'' hT'' hholds
      · obtain ⟨hsound, -⟩ := applyRollback_ret hT' hback
        rw [hl] at hsound
        simp at hsound
    · rcases applyForward_failed hT hf hm with ⟨hs, T', hT'⟩ | ⟨hl, -, T', hlost, hT'⟩
      · obtain ⟨he, hconf, T'', hT'', -, hj⟩ := applyRollback_raise hT' hback
        exact .recovery he hconf T'' hT'' (hj.imp_left fun hj => by rw [hj, hs.journal, hw₅.1.journal])
      · obtain ⟨he, hconf, T'', hT'', hkeep, -⟩ := applyRollback_raise hT' hback
        exact .recovery he hconf T'' hT'' (.inr (hkeep hlost))

theorem apply_installs {u : Unit} (h : apply S config w = (.ret u, w')) :
    w'.state.configuration = config ∧ w'.journal = some w'.state ∧
      ∃ T, T.holds config ∧ Tallied w T w' := by
  have hu := uncounted_lenient
  obtain ⟨_, w₁, h₁, h⟩ := bind_ret h
  obtain ⟨_, w₂, h₂, h⟩ := bind_ret h
  obtain ⟨_, w₃, h₃, h⟩ := bind_ret h
  obtain ⟨_, w₄, h₄, h⟩ := bind_ret h
  rw [gets_bind] at h
  obtain ⟨_, w₅, h₅, h⟩ := bind_ret h
  have hquiet : Adds Entry.uncounted w w₅ := by
    apply Adds.trans _ _ _ ((hu.idle w).result h₁)
    apply Adds.trans _ _ _ ((Within.lift hu.refl _ w₁).result h₂)
    apply Adds.trans _ _ _ ((hu.checkHostname config w₂).result h₃)
    apply Adds.trans _ _ _ ((hu.validateConfiguration config w₃).result h₄)
    exact (Within.require hu.refl _ _ w₄).result h₅
  have hT := (Tallied.refl w).adds hquiet
  unfold attempt at h
  rcases hm : applyForward config w₅ with ⟨o, w₆⟩
  rw [hm] at h
  cases o with
  | ret u' =>
    injection h with _ hw
    subst hw
    obtain ⟨hs, hj, T, hholds, hT'⟩ := applyForward_installs hT hm
    exact ⟨by rw [hs]; rfl, hj, T, hholds, hT'⟩
  | raise e =>
    obtain ⟨_, w₇, _, h⟩ := bind_ret h
    simp at h
  | crash => simp at h

end Backend

/-- The journal holds this configuration. -/
def Journaled (c : Configuration) (w : World) : Prop := ∃ d, w.journal = some d ∧ d.configuration = c

/-- The marks of a call, and what may pass at its end, do not count. -/
theorem tally_call {op : Op} {script : List Choice} {w₁ w₂ : World} {T : Tally} {e : Entry}
    (hT : Tallied (entered op script w) T w₁) (hf : Frame [] w₁ w₂) (he : e.uncounted = true) :
    tally (newer w.trace (w₂.log e).trace) = T := by
  obtain ⟨es, ht, hes⟩ := hT
  obtain ⟨ws, hw, hu⟩ := hf.trace
  have hws : ∀ x ∈ e :: ws, x.uncounted = true := by
    intro x hx
    rcases List.mem_cons.mp hx with rfl | hx
    · exact he
    · have hp := hw x hx
      cases x with
      | written v d => rfl
      | reading u => rfl
      | _ => simp [Entry.passing] at hp
  have htrace : (w₂.log e).trace = ((e :: ws) ++ (es ++ [.call op w.failed])) ++ w.trace := by
    change e :: w₂.trace = _
    rw [hu, ht]
    simp [entered]
  rw [htrace, newer_append, tally_append hws, ← hes]
  unfold tally
  rw [List.foldr_append]
  rfl

/-- Applying preferences is all or nothing. A call that raises leaves the old configuration in
memory, and in the journal what was there or, written back, the old configuration, unless a
write failed. Under any error but that of a failed rollback it made no call of the platform and
did not touch the journal, or it put the old configuration back everywhere. A call that returns
has put the new configuration everywhere. -/
theorem preferences_all_or_nothing (S : Site) (settings : Option Bytes) (tree : List Bytes)
    (status : StatusFile) (es : List Event) (config : Configuration) (script : List Choice) :
    let w := run S (fresh settings tree status) es
    let p := perform S (.apply config) script w
    let done := tally (newer w.trace p.2.trace)
    (∀ e, p.1 = .raise e →
      p.2.state.configuration = w.state.configuration ∧
      (done.lost = false → p.2.journal = w.journal ∨ Journaled w.state.configuration p.2) ∧
      (e ≠ Backend.rollbackError →
        done.untouched ∧ p.2.journal = w.journal ∨
        done.holds w.state.configuration ∧ Journaled w.state.configuration p.2)) ∧
    (∀ r, p.1 = .ret r →
      done.holds config ∧ p.2.state.configuration = config ∧ Journaled config p.2) := by
  intro w p done
  refine ⟨?_, ?_⟩
  · intro e hraise
    have hp : perform S (.apply config) script w = (.raise e, p.2) := Prod.ext hraise rfl
    obtain ⟨w₁, hcall, hlog⟩ := perform_raise hp
    have happly : Backend.apply S config (entered (.apply config) script w) = (.raise e, w₁) := by
      rcases bind_raise hcall with ⟨_, w₂, _, h₂⟩ | hr
      · simp at h₂
      · exact hr
    have hdone : ∀ T, Tallied (entered (.apply config) script w) T w₁ → done = T := by
      intro T hT
      change tally (newer w.trace p.2.trace) = T
      rw [hlog]
      exact tally_call hT (Frame.refl w₁) rfl
    rw [hlog]
    cases Backend.apply_fails happly with
    | refused hs hquiet =>
      have hT := hdone _ ((Tallied.refl _).adds hquiet)
      have hj : w₁.journal = w.journal := hs.journal
      exact ⟨congrArg State.configuration hs.state, fun _ => .inl hj,
        fun _ => .inl ⟨by rw [hT]; exact ⟨rfl, rfl⟩, hj⟩⟩
    | recovery he hconf T hT hj =>
      refine ⟨hconf, ?_, fun hne => absurd he hne⟩
      intro hlost
      rw [hdone T hT] at hlost
      rcases hj with hj | hj
      · exact .inl hj
      · rw [hj] at hlost
        simp at hlost
    | restored hconf hj T hT hholds =>
      have hd : Journaled w.state.configuration (w₁.log (.raised (.apply config))) := ⟨_, hj, hconf⟩
      refine ⟨hconf, fun _ => .inr hd, fun _ => .inr ⟨?_, hd⟩⟩
      rw [hdone T hT]
      exact hholds
  · intro r hret
    have hp : perform S (.apply config) script w = (.ret r, p.2) := Prod.ext hret rfl
    obtain ⟨w₁, w₂, hcall, hcheck, hlog⟩ := perform_ret hp
    have hf : Frame [] w₁ w₂ := (checkpoint_spec (S := S) w₁).post _ _ hcheck
    obtain ⟨_, w₃, happly, hreply⟩ := bind_ret hcall
    injection hreply with _ hreply
    subst hreply
    obtain ⟨hconf, hj, T, hholds, hT⟩ := Backend.apply_installs happly
    have hdone : done = T := by
      change tally (newer w.trace p.2.trace) = T
      rw [hlog]
      exact tally_call hT hf rfl
    rw [hlog, hdone]
    have hs : w₂.state.configuration = config := by rw [hf.state, hconf]
    exact ⟨hholds, hs, w₃.state, hf.journal.trans hj, hconf⟩

/-- The first start journals what discover() reports, which names no PTP port; the second process
takes the port from the defaults. -/
def Fixture.refilled : List Event := Fixture.started ++ [.restart [], .call .start []]

/-- A configuration that the validation refuses. -/
def Fixture.nameless : Configuration :=
  { Fixture.config with system := { Fixture.config.system with hostname := [] } }

/-- After such a call the journal is still without the PTP port that the configuration in
memory had, although no write failed. -/
theorem preferences_port_not_durable :
    let w := run Fixture.ported Fixture.device Fixture.refilled
    let p := perform Fixture.ported (.apply Fixture.nameless) [] w
    w.alive = true ∧ w.failed = false ∧ (∃ e, p.1 = .raise e) ∧
      (tally (newer w.trace p.2.trace)).lost = false ∧ ¬ Journaled w.state.configuration p.2 := by
  intro w p
  obtain ⟨ha, hf, hr, hl, hd⟩ : w.alive = true ∧ w.failed = false ∧
      p.1 = .raise ⟨.invalidArgument, ascii "invalid hostname"⟩ ∧
      (tally (newer w.trace p.2.trace)).lost = false ∧
      p.2.journal.all (fun d => decide (d.configuration ≠ w.state.configuration)) = true := by
    decide
  refine ⟨ha, hf, ⟨_, hr⟩, hl, ?_⟩
  rintro ⟨d, hj, hc⟩
  rw [hj] at hd
  simp [hc] at hd

end Monutchee.System
