import Monutchee.System.Refinement

/-!
# Mutual exclusion of system transactions

A property of a single state that every change of the protocol keeps holds of the memory
and of the journal at every point of every run (`StateInvariant`). Exclusion of network
transactions, jobs and resets is such a property.
-/

namespace Monutchee.System
open Lib Relation

variable {S : Site} {c c' : Core} {s : State} {marks : List Entry}

/-! ### Properties of a single state -/

structure StateInvariant (S : Site) (P : State → Prop) : Prop where
  empty : P {}
  initial : P { configuration := S.profile.defaults }
  migrate : ∀ s, P s → P (Backend.migrate S.profile s)
  change : ∀ c s marks, Change S c s marks → P c.state → P s
  loose : ∀ c s marks, Loose S c s marks → P c.state → P s
  dispatch : ∀ s, P s → P (s.setJob .dispatched)

/-- The property holds of the memory and of the journal. -/
structure Everywhere (P : State → Prop) (c : Core) : Prop where
  memory : P c.state
  journal : ∀ d, c.journal = some d → P d

namespace StateInvariant
variable {P : State → Prop}

theorem saved (hs : Saved c s marks c') (hP : P s) (hj : ∀ d, c.journal = some d → P d) :
    Everywhere P c' := by
  refine ⟨?_, ?_⟩
  · rw [hs.state]
    exact hP
  · intro d hd
    rcases hs.holds hd with rfl | hd
    · exact hP
    · exact hj d hd

theorem loaded (h : StateInvariant S P) (hj : ∀ d, c.journal = some d → P d) :
    P (Backend.loaded S.profile c.journal) := by
  unfold Backend.loaded
  cases hd : c.journal with
  | none => exact h.migrate _ h.initial
  | some d => exact h.migrate _ (hj d hd)

theorem move (h : StateInvariant S P) (hm : Move S c c') (hc : Everywhere P c) :
    Everywhere P c' := by
  obtain ⟨hP, hj⟩ := hc
  cases hm with
  | dispatch _ _ hs => exact saved hs (h.dispatch _ hP) hj
  | save _ hch hs => exact saved hs (h.change _ _ _ hch hP) hj
  | loose _ hl => exact ⟨h.loose _ _ _ hl hP, hj⟩
  | construct => exact ⟨h.loaded hj, hj⟩
  | remove p _ _ =>
    refine ⟨hP, ?_⟩
    intro d hd
    dsimp only at hd
    split at hd
    · simp at hd
    · exact hj d hd
  | _ => exact ⟨hP, hj⟩

/-- The property holds of memory and journal at every point of every run. -/
theorem run (h : StateInvariant S P) (settings : Option Bytes) (tree : List Bytes)
    (status : StatusFile) (es : List Event) :
    Everywhere P (System.run S (System.fresh settings tree status) es).toCore := by
  apply path_keeps (fun _ _ hm => h.move hm) (run_path S _ es)
  exact ⟨h.empty, by simp [System.fresh]⟩

end StateInvariant

/-! ### Exclusion -/

def Exclusive (s : State) : Prop :=
  s.isOpen = true → s.job.state ≠ .accepted ∧ s.resetIntent = false

theorem settle_not_open (s : State) (commit : Bool) : (s.settle commit).isOpen = false := by
  cases commit <;> rfl

theorem exclusive_of_not_open (h : s.isOpen = false) : Exclusive s := by
  intro ho
  rw [h] at ho
  simp at ho

theorem exclusive_change (h : Change S c s marks) (he : Exclusive c.state) : Exclusive s := by
  cases h with
  | begin p id actor requestId t _ _ hi _ _ _ _ =>
    intro _
    exact ⟨hi.2.1, hi.2.2⟩
  | prepare time _ _ hp _ _ _ =>
    intro _
    exact he (by rw [State.isOpen, hp]; rfl)
  | settle commit _ _ _ _ => exact exclusive_of_not_open (settle_not_open _ commit)
  | job job actor requestId _ _ hi _ => exact exclusive_of_not_open hi.1
  | powerFailed _ =>
    intro ho
    exact ⟨by simp [State.setJob], (he ho).2⟩
  | interrupt _ ho _ _ => exact exclusive_of_not_open ho
  | configure config _ _ hi _ => exact exclusive_of_not_open hi.1
  | keep => exact he
  | adopt _ _ _ => exact he
  | completeReset _ _ _ _ _ =>
    intro _
    exact ⟨by simp [State.completeReset], rfl⟩

theorem exclusive_loose (h : Loose S c s marks) (he : Exclusive c.state) : Exclusive s := by
  cases h with
  | wipe _ _ => exact exclusive_of_not_open rfl
  | _ => exact he

theorem exclusive_invariant (S : Site) : StateInvariant S Exclusive where
  empty := exclusive_of_not_open rfl
  initial := exclusive_of_not_open rfl
  migrate := by
    intro s hs
    unfold Backend.migrate
    split
    · exact hs
    · exact hs
  change := fun _ _ _ h he => exclusive_change h he
  loose := fun _ _ _ h he => exclusive_loose h he
  dispatch := by
    intro s hs ho
    exact ⟨by simp [State.setJob], (hs ho).2⟩

theorem not_both (h : Exclusive s) :
    ¬ (s.isOpen = true ∧ (s.job.state = .accepted ∨ s.resetIntent = true)) := by
  rintro ⟨ho, hj⟩
  obtain ⟨hja, hri⟩ := h ho
  rcases hj with hj | hj
  · exact hja hj
  · rw [hri] at hj
    simp at hj

/-- An open network transaction excludes an accepted job and a reset intent, in memory and in
the journal, at every point of every run from a device without a journal. -/
theorem transactions_exclude_jobs (S : Site) (settings : Option Bytes) (tree : List Bytes)
    (status : StatusFile) (es : List Event) :
    let w := run S (fresh settings tree status) es
    ¬ (w.state.isOpen = true ∧ (w.state.job.state = .accepted ∨ w.state.resetIntent = true)) ∧
      ∀ d, w.journal = some d →
        ¬ (d.isOpen = true ∧ (d.job.state = .accepted ∨ d.resetIntent = true)) := by
  have h := (exclusive_invariant S).run settings tree status es
  exact ⟨not_both h.memory, fun d hd => not_both (h.journal d hd)⟩

end Monutchee.System
