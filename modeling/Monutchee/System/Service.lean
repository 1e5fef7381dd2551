import Monutchee.System.Privilege
import Monutchee.System.Wellformed

/-!
# The service keeps well-formed states

The invariant of well-formed states over the whole life of the service: requests of any
peer, ticks of the worker, bootstraps and launches of new processes, and stops at any point.
What a caller may bring in is what the handler passes on, so the limits are asked of
authorized requests only.
-/

namespace Monutchee.System
open Lib Lib.Act

variable {D : Daemon} {S : Site} {L : Limits} {w w' : World}

/-- An input that brings in only what the limits say. -/
structure Input.Within (D : Daemon) (L : Limits) (i : Input) : Prop where
  ids : ∀ c ∈ i.script, L.id c.id
  grants : ∀ r script op, i = .request r script → D.authorize r = .ok (.call op) → L.grants op

def Life.Within (D : Daemon) (L : Limits) : Life → Prop
  | .bootstrap built script | .launch built script =>
    (∀ c ∈ built, L.id c.id) ∧ ∀ c ∈ script, L.id c.id
  | .stop => True
  | .input i => i.Within D L

/-! ### One input -/

/-- Worlds that agree up to the script. -/
theorem Sustained.agree (h : Sustained S L w) (ha : Agree w w') (hl : w'.alive = true → w.alive = true) :
    Sustained S L w' :=
  ⟨h.durable.agree ha, fun hw => (h.running (hl hw)).agree ha⟩

theorem Sustained.rescript (h : Sustained S L w) {script : List Choice}
    (hi : ∀ c ∈ script, L.id c.id) : Sustained S L { w with script := script } := by
  refine ⟨h.durable.rescript hi w.alive, ?_⟩
  intro ha
  have hr := h.running ha
  exact ⟨h.durable.rescript hi w.alive, hr.memory, hr.armed⟩

theorem Sustained.draw (hs : Surroundings S L) (h : Sustained S L w) : Sustained S L w.draw.2 := by
  refine ⟨h.durable.draw hs, ?_⟩
  intro ha
  rw [draw_core] at ha
  exact (h.running ha).draw hs

theorem answer_sustained (hs : Surroundings S L) (q : Query) (h : Sustained S L w) :
    Sustained S L (Daemon.answer q w).2 := by
  unfold Daemon.answer
  split
  · exact h
  · have hd := h.draw hs
    obtain ha | ha := ask_world q w
    · rw [ha]
      exact Sustained.of_dead (hd.durable.agree ⟨rfl, rfl, rfl, rfl, rfl⟩) rfl
    · rw [ha]
      apply hd.agree (authority_agree _ _)
      intro hl
      rw [(authority_frame _ _).alive] at hl
      exact hl

theorem act_sustained (hs : Surroundings D.site L) {i : Input} (hi : i.Within D L)
    (h : Sustained D.site L w) : Sustained D.site L (D.act w i) := by
  have hsafe : ∀ op script, w.alive = true → op.starts = false → L.grants op →
      (∀ c ∈ script, L.id c.id) → Safe D.site L (perform D.site op script w).2 := by
    intro op script ha hop hl hids
    exact perform_safe hs hop hl hids (h.running ha)
  have htick : ∀ script, w.alive = true → (∀ c ∈ script, L.id c.id) →
      Safe D.site L (Backend.tick D.site (entered .networkTransaction script w)).2 := by
    intro script ha hids
    exact (Backend.tick_upholds hs ((h.running ha).enter .networkTransaction hids)).kept
  have hacts := D.acts w i
  generalize D.act w i = w' at hacts ⊢
  cases hacts with
  | idle _ => exact h.rescript hi.ids
  | query r script q _ => exact answer_sustained hs q (h.rescript hi.ids)
  | call r script op ha hop =>
    have hl := hi.grants r script op rfl hop
    exact Sustained.of_safe (hsafe op script ha (authorize_boots hop).2 hl hi.ids)
  | tick script ha => exact Sustained.of_safe (hsafe .tick script ha rfl trivial hi.ids)
  | tickStops script ha =>
    have hd := (hsafe .tick script ha rfl trivial hi.ids).toDurable
    exact Sustained.of_dead (hd.agree ⟨rfl, rfl, rfl, rfl, rfl⟩) rfl
  | swallow script ha => exact Sustained.of_safe (htick script ha hi.ids)
  | swallowStops script ha =>
    have hd := (htick script ha hi.ids).toDurable
    exact Sustained.of_dead (hd.agree ⟨rfl, rfl, rfl, rfl, rfl⟩) rfl
  | status file =>
    have hr : Sustained D.site L { w with script := [] } := h.rescript (by simp)
    exact hr.agree ⟨rfl, rfl, rfl, rfl, rfl⟩ fun hl => hl

theorem drainAll_sustained (cs : List Choice) (h : Sustained S L w) :
    Sustained S L (drainAll cs w) := by
  induction cs generalizing w with
  | nil => exact h
  | cons c cs ih =>
    apply ih
    split
    · exact Sustained.of_dead (h.durable.agree ⟨rfl, rfl, rfl, rfl, rfl⟩) rfl
    · apply h.agree (authority_agree _ _)
      intro hl
      rw [(authority_frame _ _).alive] at hl
      exact hl

/-! ### Life -/

theorem launch_eq (D : Daemon) (built script : List Choice) (w : World) :
    D.launchProcess built script w =
      processStep D.site (step D.site w (.restart built)) (.call .start script) := by
  unfold Daemon.launchProcess processStep
  dsimp only
  split
  · rcases perform D.site .start script (step D.site w (.restart built)) with ⟨o, u⟩
    cases o with
    | ret r => rfl
    | raise e => simp [Op.ends]
    | crash => rfl
  · rfl

theorem live_sustained (hs : Surroundings D.site L) {l : Life} (hl : l.Within D L)
    (h : Sustained D.site L w) : Sustained D.site L (D.live w l) := by
  cases l with
  | bootstrap built script =>
    have hr := restart_sustained hs hl.1 h.durable
    change Sustained D.site L (D.bootstrapProcess built script w)
    unfold Daemon.bootstrapProcess
    dsimp only
    by_cases ha : (step D.site w (.restart built)).alive = true
    · rw [if_pos ha]
      have hw : Safe D.site L (perform D.site .bootstrap script (step D.site w (.restart built))).2 :=
        perform_safe hs rfl trivial hl.2 (hr.running ha)
      exact Sustained.of_dead (hw.toDurable.agree ⟨rfl, rfl, rfl, rfl, rfl⟩) rfl
    · rw [if_neg ha]
      exact hr
  | launch built script =>
    have hr := restart_sustained hs hl.1 h.durable
    change Sustained D.site L (D.launchProcess built script w)
    rw [launch_eq]
    apply process_step hs _ hr
    refine ⟨hl.2, ?_⟩
    intro op _ he
    injection he with he _
    rw [← he]
    trivial
  | stop => exact Sustained.of_dead (h.durable.agree ⟨rfl, rfl, rfl, rfl, rfl⟩) rfl
  | input i =>
    have ha := act_sustained hs hl h
    exact drainAll_sustained _ (ha.rescript (by simp))

/-- The invariant holds over every life of the service. -/
theorem lives_sustained (hs : Surroundings D.site L) {ls : List Life} (hl : ∀ l ∈ ls, l.Within D L)
    (h : Sustained D.site L w) : Sustained D.site L (D.lives w ls) := by
  induction ls generalizing w with
  | nil => exact h
  | cons l ls ih =>
    apply ih fun x hx => hl x (List.mem_cons_of_mem _ hx)
    exact live_sustained hs (hl l (List.mem_cons_self ..)) h

end Monutchee.System
