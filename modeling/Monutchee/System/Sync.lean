import Monutchee.System.Exclusion

/-!
# Memory and journal

While the process runs and no journal write has failed, the journal and the memory agree
on the transaction, the job and the reset intent; they differ only in what bootstrap is
about to replace, in the hostname and in the labels of the transaction.
-/

namespace Monutchee.System
open Lib Relation

variable {S : Site} {c c' : Core} {s : State} {marks : List Entry}

/-- A transaction without the labels that only the audit log reads. -/
def Pending.body (p : Pending) : Pending := { p with actor := [], requestId := [] }

theorem transaction_of_body {p q : Pending} (h : p.body = q.body) :
    p.transaction = q.transaction := by
  have ht : p.body.transaction = q.body.transaction := by rw [h]
  exact ht

theorem open_of_body {p q : Pending} (h : p.body = q.body) :
    p.transaction.state.isOpen = q.transaction.state.isOpen := by
  rw [transaction_of_body h]

structure Agrees (t : List Entry) (d s : State) : Prop where
  intent : d.resetIntent = s.resetIntent
  job : d.job = s.job
  pending : (s.resetIntent = false ∨ booting t = false) ∨ s.pending.transaction.state ≠ .idle →
    d.pending.body = s.pending.body
  initialized : s.resetIntent = false ∨ booting t = false → d.initialized = s.initialized
  network : s.resetIntent = false ∨ booting t = false → d.initialized = true →
    d.network = s.network

structure Synced (c : Core) : Prop where
  present : ∀ d, c.journal = some d → Agrees c.trace d c.state
  absent : c.journal = none → c.state.resetIntent = false →
    c.state.pending.body = ({} : Pending).body ∧ c.state.initialized = false

def Sync (c : Core) : Prop := c.alive = true → c.failed = false → Synced c

theorem Agrees.refl (t : List Entry) (s : State) : Agrees t s s :=
  ⟨rfl, rfl, fun _ => rfl, fun _ => rfl, fun _ _ => rfl⟩

theorem synced_of_eq (h : c.journal = some c.state) : Synced c := by
  refine ⟨?_, ?_⟩
  · intro d hd
    rw [h] at hd
    injection hd with hd
    rw [← hd]
    exact Agrees.refl _ _
  · intro hn
    rw [h] at hn
    simp at hn

/-- A step that leaves memory, journal and the boot phase alone. -/
theorem Synced.frame (h : Synced c) (hs : c'.state = c.state) (hj : c'.journal = c.journal)
    (hb : booting c'.trace = false → booting c.trace = false) : Synced c' := by
  refine ⟨?_, ?_⟩
  · intro d hd
    rw [hj] at hd
    have ha := h.present d hd
    rw [hs]
    exact ⟨ha.intent, ha.job, fun hc => ha.pending (hc.imp_left (·.imp_right hb)),
      fun hc => ha.initialized (hc.imp_right hb), fun hc => ha.network (hc.imp_right hb)⟩
  · intro hn hi
    rw [hs] at hi ⊢
    exact h.absent (hj ▸ hn) hi

theorem sync_saved (hs : Saved c s marks c') : Sync c' := by
  intro ha hf
  cases hs with
  | refused h => exact absurd hf (by simp [h])
  | cut _ => simp at ha
  | ok _ => exact synced_of_eq rfl
  | lost left _ => simp at hf

theorem Agrees.trans_memory {t t' : List Entry} {d : State} (h : Agrees t d c.state)
    (hi : s.resetIntent = c.state.resetIntent) (hj : s.job = c.state.job)
    (hp : s.pending.body = c.state.pending.body) (hn : s.initialized = c.state.initialized)
    (hw : s.initialized = true → s.network = c.state.network) (hb : booting t' = booting t) :
    Agrees t' d s := by
  refine ⟨h.intent.trans hi.symm, h.job.trans hj.symm, ?_, ?_, ?_⟩
  · intro hc
    rw [hi, hb, transaction_of_body hp] at hc
    exact (h.pending hc).trans hp.symm
  · intro hc
    rw [hi, hb] at hc
    exact (h.initialized hc).trans hn.symm
  · intro hc hd
    rw [hi, hb] at hc
    have hs : s.initialized = true := by rw [hn, ← h.initialized hc]; exact hd
    rw [hw hs]
    exact h.network hc hd

theorem synced_loose (h : Synced c) (hf : c.failed = false) (hl : Loose S c s marks) :
    Synced { c with state := s, trace := marks ++ c.trace } := by
  cases hl with
  | relabel actor requestId =>
    refine ⟨?_, fun hn hi => h.absent hn hi⟩
    intro d hd
    exact (h.present d hd).trans_memory rfl rfl rfl rfl (fun _ => rfl) rfl
  | configuration config hn hi =>
    refine ⟨?_, fun hj hi => h.absent hj hi⟩
    intro d hd
    refine (h.present d hd).trans_memory rfl rfl rfl rfl ?_ rfl
    intro hs
    rw [show _ = false from hn] at hs
    simp at hs
  | wipe hi hb =>
    have hno : ¬ (c.state.resetIntent = false ∨ booting c.trace = false) := by simp [hi, hb]
    refine ⟨?_, fun _ hr => absurd hi (by rw [show c.state.resetIntent = false from hr]; simp)⟩
    intro d hd
    have ha := h.present d hd
    refine ⟨ha.intent, ha.job, ?_, fun hc => absurd hc hno, fun hc => absurd hc hno⟩
    rintro (hc | hc)
    · exact absurd hc hno
    · exact absurd rfl hc
  | hostname b hb hp =>
    refine ⟨?_, fun hn hi => h.absent hn hi⟩
    intro d hd
    exact (h.present d hd).trans_memory rfl rfl rfl rfl (fun _ => rfl) rfl
  | revert config ho hr =>
    have hc : config = c.state.configuration := by simpa [hf] using hr
    refine ⟨?_, fun hn hi => h.absent hn hi⟩
    intro d hd
    refine (h.present d hd).trans_memory rfl rfl rfl rfl ?_ rfl
    intro _
    rw [hc]

theorem loaded_pending (P : Profile) (j : Option State) :
    (Backend.loaded P j).pending = (j.getD { configuration := P.defaults }).pending := by
  unfold Backend.loaded Backend.migrate
  split
  · rfl
  · rfl

theorem agrees_migrate (P : Profile) (t : List Entry) (d : State) :
    Agrees t d (Backend.migrate P d) := by
  unfold Backend.migrate
  split
  · exact ⟨rfl, rfl, fun _ => rfl, fun _ => rfl, fun _ _ => rfl⟩
  · exact Agrees.refl t d

theorem synced_loaded {P : Profile} (h : c.state = Backend.loaded P c.journal) : Synced c := by
  refine ⟨?_, ?_⟩
  · intro d hd
    rw [h, hd]
    exact agrees_migrate P _ d
  · intro hn _
    rw [h, hn]
    change (Backend.migrate P _).pending.body = _ ∧ (Backend.migrate P _).initialized = false
    unfold Backend.migrate
    split
    · exact ⟨rfl, rfl⟩
    · exact ⟨rfl, rfl⟩

theorem Sync.move (hm : Move S c c') (h : Sync c) : Sync c' := by
  cases hm with
  | dispatch _ _ hs => exact sync_saved hs
  | save _ _ hs => exact sync_saved hs
  | loose ha hl =>
    intro _ hf
    exact synced_loose (h ha hf) hf hl
  | construct => exact fun _ _ => synced_loaded rfl
  | cut => exact fun ha => by simp at ha
  | stop => exact fun ha => by simp at ha
  | remove p hi hb hh hr =>
    intro ha hf
    have hs := h ha hf
    refine ⟨?_, fun _ hn => absurd hi (by rw [show c.state.resetIntent = false from hn]; simp)⟩
    intro d hd
    dsimp only at hd
    split at hd
    · simp at hd
    · have hg := hs.present d hd
      exact ⟨hg.intent, hg.job, hg.pending, hg.initialized, hg.network⟩
  | note e he =>
    intro ha hf
    refine (h ha hf).frame rfl rfl ?_
    cases e <;> first | exact id | simp [Entry.inert] at he
  | network n bootstrap ok ha hg =>
    intro ha hf
    refine (h ha hf).frame rfl rfl ?_
    cases ok <;> exact id
  | returned op hb _ =>
    intro ha hf
    have hs := h ha hf
    by_cases ho : op = .bootstrap
    · have hi := (hb ho).reset
      refine ⟨?_, fun hn hi => hs.absent hn hi⟩
      intro d hd
      have hg := hs.present d hd
      exact ⟨hg.intent, hg.job, fun _ => hg.pending (.inl (.inl hi)), fun _ => hg.initialized (.inl hi),
        fun _ => hg.network (.inl hi)⟩
    · refine hs.frame rfl rfl ?_
      cases op <;> first | exact id | exact absurd rfl ho
  | call op =>
    intro ha hf
    refine (h ha hf).frame rfl rfl ?_
    cases op <;> first | exact id | exact fun hb => by simp [booting] at hb
  | _ => exact fun ha hf => (h ha hf).frame rfl rfl id

/-! ### The invariants that every run keeps -/

theorem change_initialized (h : Change S c s marks) (hi : c.state.initialized = true) :
    s.initialized = true := by
  cases h with
  | configure config _ _ _ _ => rfl
  | adopt _ _ _ => rfl
  | _ => exact hi

theorem loose_initialized (h : Loose S c s marks) (hi : c.state.initialized = true) :
    s.initialized = true := by
  cases h with
  | wipe _ _ => rfl
  | _ => exact hi

structure Invariant (c : Core) : Prop where
  sync : Sync c
  exclusive : Everywhere Exclusive c
  closed : c.state.resetIntent = true → ∀ d, c.journal = some d → d.isOpen = false
  initialized : ∀ d, c.journal = some d → d.initialized = true → c.state.initialized = true

namespace Invariant

/-- An open transaction in memory is the one in the journal. -/
theorem journal_of_open (h : Invariant c) (ha : c.alive = true) (hf : c.failed = false)
    (ho : c.state.isOpen = true) : ∃ d, c.journal = some d ∧ d.pending.body = c.state.pending.body := by
  have hs := h.sync ha hf
  have hi : c.state.resetIntent = false := (h.exclusive.memory ho).2
  cases hj : c.journal with
  | some d => exact ⟨d, rfl, (hs.present d hj).pending (.inl (.inl hi))⟩
  | none =>
    have hp := open_of_body (hs.absent hj hi).1
    rw [State.isOpen, hp] at ho
    simp [TransactionState.isOpen] at ho

/-- An open transaction in the journal is the one in memory. -/
theorem open_of_journal (h : Invariant c) (ha : c.alive = true) (hf : c.failed = false) {d : State}
    (hj : c.journal = some d) (ho : d.isOpen = true) : d.pending.body = c.state.pending.body := by
  have hi : c.state.resetIntent = false := by
    by_contra hn
    have hc := h.closed (by simpa using hn) d hj
    rw [hc] at ho
    simp at ho
  exact ((h.sync ha hf).present d hj).pending (.inl (.inl hi))

/-- With a reset intended, neither the state saved nor the one before is open. -/
theorem closed_save (h : Invariant c) (ha : c.alive = true) (hc : Change S c s marks)
    (hi : s.resetIntent = true) : ∀ d, c.journal = some d → d.isOpen = false := by
  cases hc with
  | begin p id actor requestId t _ _ hidle _ _ _ _ => exact h.closed hi
  | prepare time _ _ _ _ _ _ => exact h.closed hi
  | settle commit _ _ _ _ => exact h.closed hi
  | job job actor requestId hf _ hidle _ =>
    intro d hd
    have hp := ((h.sync ha hf).present d hd).pending (.inl (.inl hidle.2.2))
    exact (open_of_body hp).trans hidle.1
  | powerFailed _ => exact h.closed hi
  | interrupt _ _ _ _ => exact h.closed hi
  | configure config _ _ _ _ => exact h.closed hi
  | keep => exact h.closed hi
  | adopt _ _ _ => exact h.closed hi
  | completeReset hr _ _ _ _ => exact h.closed hr

theorem closed_saved (hs : Saved c s marks c') (he : Exclusive s)
    (hc : s.resetIntent = true → ∀ d, c.journal = some d → d.isOpen = false) :
    c'.state.resetIntent = true → ∀ d, c'.journal = some d → d.isOpen = false := by
  have hself : s.resetIntent = true → s.isOpen = false := by
    intro hi
    by_contra ho
    have hn := (he (by simpa using ho)).2
    rw [hi] at hn
    simp at hn
  intro hi d hd
  rw [hs.state] at hi
  rcases hs.holds hd with rfl | hd
  · exact hself hi
  · exact hc hi d hd

theorem initialized_saved (hs : Saved c s marks c')
    (hc : ∀ d, c.journal = some d → d.initialized = true → s.initialized = true) :
    ∀ d, c'.journal = some d → d.initialized = true → c'.state.initialized = true := by
  intro d hd hi
  rw [hs.state]
  rcases hs.holds hd with rfl | hd
  · exact hi
  · exact hc d hd hi

theorem closed_move (hm : Move S c c') (h : Invariant c) (he : Everywhere Exclusive c') :
    c'.state.resetIntent = true → ∀ d, c'.journal = some d → d.isOpen = false := by
  cases hm with
  | dispatch _ _ hs =>
    exact closed_saved hs ((exclusive_invariant S).dispatch _ h.exclusive.memory) h.closed
  | save ha hc hs =>
    exact closed_saved hs (exclusive_change hc h.exclusive.memory) (h.closed_save ha hc)
  | loose _ hl =>
    intro hi
    cases hl <;> exact h.closed hi
  | construct =>
    intro hi d hd
    have hload : Backend.loaded S.profile c.journal = Backend.migrate S.profile d := by
      rw [hd]
      rfl
    by_contra ho
    have hn := (he.journal d hd (by simpa using ho)).2
    have ha := (agrees_migrate S.profile [] d).intent
    rw [hload, ← ha, hn] at hi
    simp at hi
  | remove p hi _ _ _ =>
    intro _ d hd
    dsimp only at hd
    split at hd
    · simp at hd
    · exact h.closed hi d hd
  | _ => exact h.closed

theorem initialized_move (hm : Move S c c') (h : Invariant c) :
    ∀ d, c'.journal = some d → d.initialized = true → c'.state.initialized = true := by
  cases hm with
  | dispatch _ _ hs => exact initialized_saved hs fun d hd hi => h.initialized d hd hi
  | save _ hc hs =>
    exact initialized_saved hs fun d hd hi => change_initialized hc (h.initialized d hd hi)
  | loose _ hl => exact fun d hd hi => loose_initialized hl (h.initialized d hd hi)
  | construct =>
    intro d hd hi
    have hload : Backend.loaded S.profile c.journal = Backend.migrate S.profile d := by
      rw [hd]
      rfl
    rw [hload]
    exact ((agrees_migrate S.profile [.returned .bootstrap] d).initialized (.inr rfl)).symm.trans hi
  | remove p _ _ _ _ =>
    intro d hd
    dsimp only at hd
    split at hd
    · simp at hd
    · exact h.initialized d hd
  | _ => exact h.initialized

theorem move (hm : Move S c c') (h : Invariant c) : Invariant c' := by
  have he := (exclusive_invariant S).move hm h.exclusive
  exact ⟨Sync.move hm h.sync, he, closed_move hm h he, initialized_move hm h⟩

theorem fresh (settings : Option Bytes) (tree : List Bytes) (status : StatusFile) :
    Invariant (System.fresh settings tree status).toCore := by
  refine ⟨?_, ⟨exclusive_of_not_open rfl, by simp [System.fresh]⟩, ?_, ?_⟩
  · intro ha
    simp [System.fresh] at ha
  · intro _ d hd
    simp [System.fresh] at hd
  · intro d hd
    simp [System.fresh] at hd

theorem run (S : Site) (settings : Option Bytes) (tree : List Bytes) (status : StatusFile)
    (es : List Event) : Invariant (System.run S (System.fresh settings tree status) es).toCore :=
  path_keeps (fun _ _ hm => move hm) (run_path S _ es) (fresh settings tree status)

end Invariant

end Monutchee.System
