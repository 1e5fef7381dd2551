import Monutchee.System.Frame
import Monutchee.System.Run

/-!
# The Backend follows the protocol

Every method of the Backend, from any world in which the process is alive, is a path of
moves of `Protocol`, whatever the environment answers and wherever it cuts the process
off. The methods are walked through in the order of the source; each `_spec` also says
what its callers need to know when it returns. `run_path` is the result for whole runs.
-/

namespace Monutchee.System
open Lib Lib.Act Relation

variable {S : Site} {w w' : World} {α β : Type}

/-- The program is a path of moves, and if it returns then `Q` holds. -/
abbrev Spec (S : Site) (m : Prog α) (w : World) (Q : α → World → Prop) : Prop :=
  Ensures (Rel S) m w Q

theorem Spec.seq {m : Prog α} {f : α → Prog β} {P : α → World → Prop} {Q : β → World → Prop}
    (hm : Spec S m w P) (hf : ∀ a w', P a w' → Spec S (f a) w' Q) : Spec S (m >>= f) w Q :=
  Ensures.bind Rel.trans hm hf

/-- An assignment that the protocol does not see, or sees as a move of its own. -/
theorem Spec.modify {g : World → World} {f : Unit → Prog β} {Q : β → World → Prop}
    (hg : Rel S w (g w)) (hf : Spec S (f ()) (g w) Q) : Spec S (Act.modify g >>= f) w Q := by
  refine ⟨?_, ?_⟩
  · exact Rel.trans _ _ _ hg hf.within
  · intro b w' h
    exact hf.post b w' h

theorem Spec.assign {g : World → World} {Q : Unit → World → Prop} (hg : Rel S w (g w))
    (h : Q () (g w)) : Spec S (Act.modify g) w Q := by
  refine ⟨hg, ?_⟩
  intro u w' hu
  injection hu with _ hw
  rw [← hw]
  exact h

theorem Spec.get {g : World → α} {f : α → Prog β} {Q : β → World → Prop}
    (hf : Spec S (f (g w)) w Q) : Spec S (gets g >>= f) w Q := ⟨hf.within, hf.post⟩

theorem Spec.check {b : Bool} {e : Error} {f : Unit → Prog β} {Q : β → World → Prop}
    (hf : b = true → Spec S (f ()) w Q) : Spec S (require b e >>= f) w Q := by
  apply Spec.seq (P := fun _ w' => b = true ∧ w' = w)
  · exact Ensures.require Rel.refl fun hb => ⟨hb, rfl⟩
  · rintro _ _ ⟨hb, rfl⟩
    exact hf hb

theorem Spec.skip {Q : Unit → World → Prop} (h : Q () w) : Spec S (pure ()) w Q :=
  Ensures.pure Rel.refl h

theorem readClock_spec (w : World) : Spec S readClock w fun _ w' => Frame [] w w' :=
  ⟨readClock_within w, fun _ _ h => readClock_ret h⟩

theorem readClock_read_spec (w : World) :
    Spec S readClock w fun t w' => Frame [.reading t] w w' ∧ lastReading w'.trace = some t :=
  ⟨readClock_within w, fun _ _ h => ⟨readClock_read h, readClock_last h⟩⟩

theorem randomId_spec (w : World) : Spec S randomId w fun _ w' => Frame [] w w' :=
  ⟨randomId_within w, fun _ _ h => randomId_ret h⟩

theorem validateConfiguration_spec (config : Configuration) (w : World) :
    Spec S (platformValidateConfiguration config) w fun _ w' => Frame [] w w' :=
  ⟨validateConfiguration_within config w, fun _ _ h => validateConfiguration_ret h⟩

theorem fileHash_spec (w : World) : Spec S (fileHash S) w fun v w' => Frame [.hash v] w w' :=
  ⟨fileHash_within w, fun _ _ h => fileHash_ret h⟩

theorem network_spec {n : Network} {bootstrap : Bool} (ha : w.alive = true)
    (hg : NetworkGuard w.toCore n) :
    Spec S (platformNetwork n bootstrap) w fun _ w' => Frame [.network n bootstrap] w w' :=
  ⟨network_within bootstrap ha hg, fun _ _ h => network_ret h⟩

theorem inert_spec {entry : Bool → Entry} (h : ∀ ok, (entry ok).inert = true) (w : World) :
    Spec S (platformCall entry) w fun _ w' => Frame [entry true] w w' :=
  ⟨platformCall_inert h w, fun _ _ h => platformCall_ret h⟩

namespace Backend

theorem event_bind_spec {e : UserEvent} {f : Unit → Prog β} {Q : β → World → Prop}
    (hf : Spec S (f ()) { w with events := w.events ++ [e] } Q) : Spec S (event e >>= f) w Q :=
  Spec.modify (Rel.of_eq rfl) hf

theorem event_spec {e : UserEvent} {Q : Unit → World → Prop}
    (h : Q () { w with events := w.events ++ [e] }) : Spec S (event e) w Q :=
  Spec.assign (Rel.of_eq rfl) h

/-! ### persist -/

theorem authority_failed (vs : List Bytes) (w : World) :
    { w.authority vs with failed := true } = World.authority vs { w with failed := true } := by
  induction vs generalizing w with
  | nil => rfl
  | cons v vs ih => exact ih (w.write v)

theorem persist_of_failed (hf : w.failed = true) : persist w = (.raise recoveryError, w) := by
  have hr : (require (!w.failed) recoveryError : Prog Unit) w = (.raise recoveryError, w) :=
    require_of_false (by simp [hf])
  rw [persist, gets_bind]
  exact bind_of_raise hr

theorem persist_of_sound (hf : w.failed = false) :
    persist w =
      if w.draw.1.crash then (.crash, { w.draw.2 with alive := false })
      else if w.draw.1.fails then
        (.raise w.draw.1.error, World.authority w.draw.1.writes { w.draw.2 with
          failed := true
          journal := if w.draw.1.leaves then some w.draw.2.state else w.draw.2.journal
          trace := .journalFailed w.draw.2.journal w.draw.2.state w.draw.1.leaves :: w.draw.2.trace })
      else
        (.ret (), World.authority w.draw.1.writes { w.draw.2 with
          journal := some w.draw.2.state
          trace := .journal w.draw.2.journal w.draw.2.state :: w.draw.2.trace }) := by
  have hr : (require (!w.failed) recoveryError : Prog Unit) w = (.ret (), w) :=
    require_of_true (by simp [hf])
  rw [persist, gets_bind, bind_of_ret hr, attempt, writeJournal, effect_apply]
  by_cases hc : w.draw.1.crash = true
  · simp only [if_pos hc]
  · by_cases hl : w.draw.1.fails = true
    · simp only [if_neg hc, if_pos hl, modify_bind, raise_apply, authority_failed]
    · simp only [if_neg hc, if_neg hl]

/-- A journal write comes to one of the ways of `Saved`, and the settings authority may write
after it. -/
theorem persist_saved (c : Core) (s : State) (marks : List Entry)
    (hw : w.toCore = { c with state := s, trace := marks ++ c.trace }) :
    ∃ c', Saved c s marks c' ∧ ReflTransGen (Inner S) c' (persist w).2.toCore ∧
      Steady w.trace (persist w).2.trace := by
  by_cases hf : w.failed = true
  · rw [persist_of_failed hf, hw]
    rw [hw] at hf
    exact ⟨_, Saved.refused hf, ReflTransGen.refl, Steady.refl _⟩
  · have hf' : w.failed = false := by simpa using hf
    have hcore := (draw_core w).trans hw
    rw [persist_of_sound hf']
    rw [hw] at hf'
    generalize w.draw.2 = w₁ at hcore
    have ht : w₁.trace = w.trace := by rw [hcore, hw]
    split
    · refine ⟨_, Saved.cut hf', ?_, ?_⟩
      · simp only [hcore]
        exact ReflTransGen.refl
      · rw [← ht]
        exact Steady.refl _
    · split
      · have hr := authority_path (S := S) w.draw.1.writes { w₁ with
          failed := true
          journal := if w.draw.1.leaves then some w₁.state else w₁.journal
          trace := .journalFailed w₁.journal w₁.state w.draw.1.leaves :: w₁.trace }
        refine ⟨_, Saved.lost w.draw.1.leaves hf', ?_, ?_⟩
        · apply ReflTransGen.trans _ hr.inner
          simp only [hcore]
          exact ReflTransGen.refl
        · rw [← ht]
          exact (Steady.cons rfl _).trans hr.steady
      · have hr := authority_path (S := S) w.draw.1.writes { w₁ with
          journal := some w₁.state, trace := .journal w₁.journal w₁.state :: w₁.trace }
        refine ⟨_, Saved.ok hf', ?_, ?_⟩
        · apply ReflTransGen.trans _ hr.inner
          simp only [hcore]
          exact ReflTransGen.refl
        · rw [← ht]
          exact (Steady.cons rfl _).trans hr.steady

structure Persisted (w w' : World) : Prop where
  sound : w.failed = false
  alive : w'.alive = w.alive
  state : w'.state = w.state
  failed : w'.failed = false
  jobDeadline : w'.jobDeadline = w.jobDeadline
  journal : w'.journal = some w.state
  trace : Grown [.journal w.journal w.state] w.trace w'.trace

theorem persist_ret {u : Unit} (h : persist w = (.ret u, w')) : Persisted w w' := by
  by_cases hf : w.failed = true
  · rw [persist_of_failed hf] at h
    simp at h
  · have hf' : w.failed = false := by simpa using hf
    have hcore := draw_core w
    rw [persist_of_sound hf'] at h
    generalize w.draw.2 = w₁ at hcore h
    split at h
    · simp at h
    · split at h
      · simp at h
      · injection h with _ h
        obtain ⟨ha, hs, hfl, hd, hj, ht⟩ := authority_frame w.draw.1.writes
          { w₁ with journal := some w₁.state, trace := .journal w₁.journal w₁.state :: w₁.trace }
        simp only [hcore] at h ha hs hfl hd hj ht
        rw [← h]
        exact ⟨hf', ha, hs, hfl.trans hf', hd, hj, ht⟩

theorem persist_raise {e : Error} (h : persist w = (.raise e, w')) :
    w'.alive = w.alive ∧ w'.state = w.state ∧ w'.failed = true := by
  by_cases hf : w.failed = true
  · rw [persist_of_failed hf] at h
    injection h with _ h
    exact ⟨by rw [h], by rw [h], by rw [← h]; exact hf⟩
  · have hcore := draw_core w
    rw [persist_of_sound (by simpa using hf)] at h
    generalize w.draw.2 = w₁ at hcore h
    split at h
    · simp at h
    · split at h
      · injection h with _ h
        obtain ⟨ha, hs, hfl, -⟩ := authority_frame w.draw.1.writes { w₁ with
          failed := true
          journal := if w.draw.1.leaves then some w₁.state else w₁.journal
          trace := .journalFailed w₁.journal w₁.state w.draw.1.leaves :: w₁.trace }
        simp only [hcore] at h ha hs hfl
        rw [← h]
        exact ⟨ha, hs, hfl⟩
      · simp at h

/-- An assignment in `w₁` followed by persist, where the move starts from an earlier `w`. -/
theorem saved_within (w₁ : World) (f : State → State) (marks : List Entry) (k : Unit → Prog β)
    (hm : ∀ c', Saved w₁.toCore (f w₁.state) marks c' → Move S w.toCore c')
    (hst : Steady w.trace (marks ++ w₁.trace))
    (hk : ∀ w', Persisted { w₁ with state := f w₁.state, trace := marks ++ w₁.trace } w' →
      Within (Rel S) (k ()) w') :
    Rel S w ((setState f marks >>= fun _ => persist >>= k) w₁).2 := by
  change Rel S w ((persist >>= k) { w₁ with state := f w₁.state, trace := marks ++ w₁.trace }).2
  have hp : Rel S w (persist { w₁ with state := f w₁.state, trace := marks ++ w₁.trace }).2 := by
    obtain ⟨c', hs, hp, ht⟩ := persist_saved (S := S) w₁.toCore (f w₁.state) marks
      (w := { w₁ with state := f w₁.state, trace := marks ++ w₁.trace }) rfl
    have hst' := hst.trans ht
    exact ⟨ReflTransGen.head ⟨hm c' hs, (inner_call hp).symm.trans hst'.call⟩ hp, hst'⟩
  rw [bind_apply]
  rcases h : persist { w₁ with state := f w₁.state, trace := marks ++ w₁.trace } with ⟨o, w₂⟩
  rw [h] at hp
  cases o with
  | ret a => exact Rel.trans _ _ _ hp (hk w₂ (persist_ret h))
  | raise e => exact hp
  | crash => exact hp

theorem saved_post (w₁ : World) (f : State → State) (marks : List Entry) (k : Unit → Prog β)
    {Q : β → World → Prop}
    (hk : ∀ w', Persisted { w₁ with state := f w₁.state, trace := marks ++ w₁.trace } w' →
      Spec S (k ()) w' Q) {b : β}
    (h : (setState f marks >>= fun _ => persist >>= k) w₁ = (.ret b, w')) : Q b w' := by
  obtain ⟨_, w₂, h₁, h₂⟩ := bind_ret (m := persist) h
  exact (hk w₂ (persist_ret h₁)).post b w' h₂

theorem change_steady {c : Core} {s : State} {marks : List Entry} (h : Change S c s marks) :
    Steady c.trace (marks ++ c.trace) := by
  cases h with
  | job job actor requestId _ hr _ _ =>
    refine ⟨rfl, ?_⟩
    intro hn
    rw [hr] at hn
    simp at hn
  | _ => exact ⟨rfl, fun _ h => h⟩

/-- An assignment followed by persist is a change of the protocol that is then saved. -/
theorem save_spec {f : State → State} {marks : List Entry} (ha : w.alive = true)
    (hc : Change S w.toCore (f w.state) marks) {k : Unit → Prog β} {Q : β → World → Prop}
    (hk : ∀ w', Persisted { w with state := f w.state, trace := marks ++ w.trace } w' →
      Spec S (k ()) w' Q) :
    Spec S (setState f marks >>= fun _ => persist >>= k) w Q :=
  ⟨saved_within w f marks k (fun _ hs => Move.save ha hc hs) (change_steady hc)
      fun w' hp => (hk w' hp).within,
    fun _ _ h => saved_post w f marks k hk h⟩

theorem save_last_spec {f : State → State} {marks : List Entry} (ha : w.alive = true)
    (hc : Change S w.toCore (f w.state) marks) :
    Spec S (setState f marks >>= fun _ => persist) w fun _ w' =>
      Persisted { w with state := f w.state, trace := marks ++ w.trace } w' := by
  have h : (setState f marks >>= fun _ => persist : Prog Unit) w =
      (setState f marks >>= fun _ => persist >>= fun _ => pure () : Prog Unit) w := by
    change persist _ = (persist >>= fun _ => pure ()) _
    rw [bind_apply]
    split <;> assumption
  have hs := save_spec (S := S) ha hc (k := fun _ => pure ()) fun w' h =>
    Ensures.pure Rel.refl (Q := fun _ w' =>
      Persisted { w with state := f w.state, trace := marks ++ w.trace } w') h
  refine ⟨?_, ?_⟩
  · have := hs.within
    unfold Within at this ⊢
    rwa [h]
  · intro u w' hu
    exact hs.post u w' (h ▸ hu)

theorem keep_spec (ha : w.alive = true) : Spec S persist w fun _ w' => Persisted w w' := by
  refine ⟨?_, fun _ _ h => persist_ret h⟩
  obtain ⟨c', hs, hp, ht⟩ := persist_saved (S := S) (w := w) w.toCore w.state [] rfl
  exact ⟨ReflTransGen.head ⟨Move.save ha Change.keep hs, (inner_call hp).symm.trans ht.call⟩ hp, ht⟩

structure Assigned (f : State → State) (marks : List Entry) (w w' : World) : Prop where
  alive : w'.alive = true
  state : w'.state = f w.state
  failed : w'.failed = w.failed
  trace : w'.trace = marks ++ w.trace

theorem loose_steady {c : Core} {s : State} {marks : List Entry} (h : Loose S c s marks) :
    Steady c.trace (marks ++ c.trace) := by
  cases h with
  | _ => exact ⟨rfl, fun _ h => h⟩

theorem loose_spec {f : State → State} {marks : List Entry} (ha : w.alive = true)
    (hl : Loose S w.toCore (f w.state) marks) {k : Unit → Prog β} {Q : β → World → Prop}
    (hk : ∀ w', Assigned f marks w w' → Spec S (k ()) w' Q) : Spec S (setState f marks >>= k) w Q :=
  Spec.modify (Rel.move (Move.loose ha hl) (loose_steady hl)) (hk _ ⟨ha, rfl, rfl, rfl⟩)

theorem Frame.of_core {w₁ : World} (h : w₁.toCore = w.toCore) : Frame [] w w₁ := by
  refine ⟨?_, ?_, ?_, ?_, ?_, [], by simp, ?_⟩ <;> rw [h]
  rfl

/-! ### Settling -/

/-- What the callers of a method rely on when it has returned. -/
structure Kept (w w' : World) : Prop where
  alive : w'.alive = true
  latch : w'.failed = true → w.failed = true
  booting : booting w'.trace = booting w.trace
  call : callOf w'.trace = callOf w.trace

theorem Kept.refl (ha : w.alive = true) : Kept w w := ⟨ha, id, rfl, rfl⟩

theorem Kept.trans {w₁ w₂ : World} (h : Kept w w₁) (h' : Kept w₁ w₂) : Kept w w₂ :=
  ⟨h'.alive, fun hf => h.latch (h'.latch hf), h'.booting.trans h.booting, h'.call.trans h.call⟩

theorem Kept.of_frame {es : List Entry} (ha : w.alive = true) (h : Frame es w w')
    (hb : System.booting (es ++ w.trace) = System.booting w.trace)
    (hc : callOf (es ++ w.trace) = callOf w.trace) : Kept w w' :=
  ⟨h.alive.trans ha, fun hf => h.failed.symm.trans hf, h.trace.booting.trans hb,
    h.trace.callOf.trans hc⟩

theorem Kept.of_persisted (ha : w.alive = true) (h : Persisted w w') : Kept w w' := by
  refine ⟨h.alive.trans ha, ?_, h.trace.booting, h.trace.callOf⟩
  intro hf
  rw [h.failed] at hf
  simp at hf

theorem Kept.of_saved {s : State} {d : ℕ} {marks : List Entry} (ha : w.alive = true)
    (h : Persisted { w with state := s, jobDeadline := d, trace := marks ++ w.trace } w')
    (hb : System.booting (marks ++ w.trace) = System.booting w.trace)
    (hc : callOf (marks ++ w.trace) = callOf w.trace) : Kept w w' := by
  have hk := Kept.of_persisted (w := { w with
    state := s, jobDeadline := d, trace := marks ++ w.trace }) ha h
  exact ⟨hk.alive, hk.latch, hk.booting.trans hb, hk.call.trans hc⟩

theorem Kept.of_assigned {f : State → State} {marks : List Entry} (h : Assigned f marks w w')
    (hb : System.booting (marks ++ w.trace) = System.booting w.trace)
    (hc : callOf (marks ++ w.trace) = callOf w.trace) : Kept w w' := by
  refine ⟨h.alive, fun hf => h.failed.symm.trans hf, ?_, ?_⟩
  · rw [h.trace, hb]
  · rw [h.trace, hc]

theorem Kept.during (h : Kept w w') (p : Op → Bool) :
    during p w'.trace = System.during p w.trace := by
  unfold System.during
  rw [h.call]

theorem Kept.careless (h : Kept w w') : careless w'.trace = System.careless w.trace := by
  unfold System.careless
  rw [h.call]

/-- A guard for the latch carries over. -/
theorem Kept.late (h : Kept w w') (hl : w.failed = true → System.careless w.trace = true) :
    w'.failed = true → System.careless w'.trace = true := by
  intro hf
  rw [h.careless]
  exact hl (h.latch hf)

theorem decided_of_frame {es : List Entry} {commit : Bool} (h : Frame es w w')
    (hh : hashRead (es ++ w.trace) = hashRead w.trace) (hd : Decided w.toCore commit) :
    Decided w'.toCore commit := by
  unfold Decided at hd ⊢
  rw [h.state, h.trace.hashRead, hh]
  exact hd

theorem pending_of_open {s : State} (ho : s.isOpen = true)
    (hc : s.pending.transaction.state ≠ .committing) : s.pending.transaction.state = .pending := by
  revert ho hc
  unfold State.isOpen
  cases s.pending.transaction.state <;> simp [TransactionState.isOpen]

theorem settleNetwork_spec {commit bootstrap : Bool} {reason : Reason} (ha : w.alive = true)
    (hl : w.failed = true → careless w.trace = true) (ho : w.state.isOpen = true)
    (hd : Decided w.toCore commit) :
    Spec S (settleNetwork commit bootstrap reason) w fun _ w' =>
      Kept w w' ∧ w'.failed = false ∧ w'.state = w.state.settle commit := by
  apply Spec.get
  apply Spec.seq (network_spec ha (NetworkGuard.settling commit ho hd hl rfl))
  intro _ w₁ hf
  have hk : Kept w w₁ := Kept.of_frame ha hf rfl rfl
  have hr : running w₁.trace = some (w₁.state.next commit) := by
    rw [hf.trace.running, hf.state]
    rfl
  have hap : lastApplied w₁.trace = some (w₁.state.next commit) := by
    rw [hf.trace.lastApplied, hf.state]
    rfl
  have hc := Change.settle (S := S) (c := w₁.toCore) commit (by rw [hf.state]; exact ho)
    (decided_of_frame hf rfl hd) hr hap
  rw [← hf.state]
  apply save_spec hk.alive hc
  intro w₂ hp
  apply event_spec
  have hk₂ : Kept w₁ w₂ := Kept.of_saved hk.alive hp rfl rfl
  exact ⟨hk.trans ⟨hk₂.alive, hk₂.latch, hk₂.booting, hk₂.call⟩, hp.failed, hp.state⟩

/-- What recoverNetwork leaves: nothing pending. -/
structure Recovered (w w' : World) : Prop extends Kept w w' where
  closed : w'.state.isOpen = false
  intent : w'.state.resetIntent = w.state.resetIntent
  initialized : w'.state.initialized = w.state.initialized

theorem recoverNetwork_spec {bootstrap : Bool} (ha : w.alive = true)
    (hl : w.failed = true → careless w.trace = true) :
    Spec S (recoverNetwork S bootstrap) w fun _ w' => Recovered w w' := by
  apply Spec.get
  split
  next ho =>
    have settled : ∀ commit w₁, Kept w w₁ → w₁.state = w.state → Decided w₁.toCore commit →
        Spec S (settleNetwork commit bootstrap (if bootstrap then .recovery else .timeout)) w₁
          fun _ w' => Recovered w w' := by
      intro commit w₁ hk hs hd
      apply Ensures.mono (settleNetwork_spec hk.alive (hk.late hl) (by rw [hs]; exact ho) hd)
      rintro _ w₂ ⟨hk₂, _, hs₂⟩
      refine ⟨hk.trans hk₂, ?_, ?_, ?_⟩
      · rw [hs₂]
        cases commit <;> rfl
      · rw [hs₂, ← hs]
        rfl
      · rw [hs₂, ← hs]
        rfl
    dsimp only
    by_cases hc : (w.state.pending.transaction.state == .committing) = true
    · rw [if_pos hc]
      have hc' : w.state.pending.transaction.state = .committing := by simpa using hc
      apply Spec.seq (P := fun b w₁ => Kept w w₁ ∧ w₁.state = w.state ∧ Decided w₁.toCore b)
      · apply Spec.seq (fileHash_spec w)
        intro h w₁ hf
        refine Ensures.pure Rel.refl ⟨Kept.of_frame ha hf rfl rfl, hf.state, ?_⟩
        have hh : hashRead w₁.trace = some h := hf.trace.hashRead
        unfold Decided
        rw [hf.state, hh]
        by_cases heq : h = w.state.pending.candidateHash
        · simp [heq, hc']
        · simp [heq]
      · rintro b w₁ ⟨hk, hs, hd⟩
        exact settled b w₁ hk hs hd
    · rw [if_neg hc]
      have hp := pending_of_open ho (by simpa using hc)
      exact settled false w (Kept.refl ha) rfl (.inl hp)
  next ho =>
    exact Spec.skip ⟨Kept.refl ha, by simpa using ho, rfl, rfl⟩

/-! ### Bootstrap -/

/-- Steps of bootstrap that leave the state alone; what has happened since bootstrap was
entered only grows. -/
structure Stays (w w' : World) : Prop extends Kept w w' where
  state : w'.state = w.state
  hash : hashRead w'.trace = hashRead w.trace
  since : ∀ e ∈ sinceBootstrap w.trace, e ∈ sinceBootstrap w'.trace

theorem Stays.trans {w₁ w₂ : World} (h : Stays w w₁) (h' : Stays w₁ w₂) : Stays w w₂ :=
  ⟨h.toKept.trans h'.toKept, h'.state.trans h.state, h'.hash.trans h.hash,
    fun e he => h'.since e (h.since e he)⟩

/-- The entries that bootstrap makes before it settles or saves anything. -/
def bootEntry : Entry → Bool
  | .network _ _ | .removed _ | .cleared => true
  | e => e.inert

theorem bootEntry_quiet {e : Entry} (he : bootEntry e = true) (t : List Entry) :
    booting (e :: t) = booting t ∧ callOf (e :: t) = callOf t ∧ hashRead (e :: t) = hashRead t ∧
      e.entersBootstrap = false := by
  cases e <;> first | exact ⟨rfl, rfl, rfl, rfl⟩ | simp [bootEntry, Entry.inert] at he

theorem Stays.of_grown {e : Entry} (he : bootEntry e = true) (ha : w'.alive = true)
    (hs : w'.state = w.state) (hf : w'.failed = w.failed) (h : Grown [e] w.trace w'.trace) :
    Stays w w' ∧ e ∈ sinceBootstrap w'.trace := by
  obtain ⟨hb, hc, hh, hn⟩ := bootEntry_quiet he w.trace
  have hx : ∀ x ∈ [e], x.entersBootstrap = false := by simpa using hn
  have hk : Kept w w' :=
    ⟨ha, fun hfl => hf.symm.trans hfl, h.booting.trans hb, h.callOf.trans hc⟩
  refine ⟨⟨hk, hs, h.hashRead.trans hh, ?_⟩, ?_⟩
  · intro x hx'
    exact h.since hx (List.mem_append_right _ hx')
  · exact h.since hx (List.mem_append_left _ (List.mem_singleton_self e))

theorem Stays.of_entry {e : Entry} (he : bootEntry e = true) (ha : w.alive = true)
    (h : Frame [e] w w') : Stays w w' ∧ e ∈ sinceBootstrap w'.trace :=
  Stays.of_grown he (h.alive.trans ha) h.state h.failed h.trace

structure PolicyApplied (w w' : World) : Prop extends Stays w w' where
  running : running w'.trace = some w.state.network
  network : .network w.state.network true ∈ sinceBootstrap w'.trace
  ssh : .ssh w.state.configuration.system.sshEnabled true ∈ sinceBootstrap w'.trace
  clock : .clock w.state.configuration.time true ∈ sinceBootstrap w'.trace

theorem bootPolicy_spec (ha : w.alive = true) (hb : booting w.trace = true) :
    Spec S bootPolicy w fun _ w' => PolicyApplied w w' := by
  apply Spec.get
  apply Spec.seq (network_spec ha (NetworkGuard.booting hb))
  intro _ w₁ h₁
  obtain ⟨hs₁, hn⟩ := Stays.of_entry rfl ha h₁
  apply Spec.seq (inert_spec (fun _ => rfl) w₁)
  intro _ w₂ h₂
  obtain ⟨hs₂, hssh⟩ := Stays.of_entry rfl hs₁.alive h₂
  apply Ensures.mono (inert_spec (fun _ => rfl) w₂)
  intro _ w₃ h₃
  obtain ⟨hs₃, hclock⟩ := Stays.of_entry rfl hs₂.alive h₃
  have hr₁ : running w₁.trace = some w.state.network := h₁.trace.running
  have hr₂ : running w₂.trace = running w₁.trace := h₂.trace.running
  have hr₃ : running w₃.trace = running w₂.trace := h₃.trace.running
  exact ⟨(hs₁.trans hs₂).trans hs₃, hr₃.trans (hr₂.trans hr₁), hs₃.since _ (hs₂.since _ hn),
    hs₃.since _ hssh, hclock⟩

section Erase
variable (hi : w.state.resetIntent = true) (hb : booting w.trace = true)
  (hh : hashRead w.trace = none)
include hi hb hh

theorem remove_rel {p : Bytes} (hp : ∃ r ∈ S.profile.resetPaths, inside r p = true) :
    Rel S w (w.remove S p) := Rel.move (Move.remove p hi hb hh hp) (Steady.cons rfl _)

theorem remove_each {ps : List Bytes}
    (hps : ∀ p ∈ ps, ∃ r ∈ S.profile.resetPaths, inside r p = true) :
    Rel S w (ps.foldl (World.remove S) w) := by
  induction ps generalizing w with
  | nil => exact Rel.refl w
  | cons p ps ih =>
    have h₁ := remove_rel hi hb hh (hps p (List.mem_cons_self ..))
    have h₂ := ih (w := w.remove S p) hi hb hh fun q hq => hps q (List.mem_cons_of_mem _ hq)
    exact Rel.trans _ _ _ h₁ h₂

end Erase

theorem durableRemove_spec {p : Bytes} (hp : p ∈ S.profile.resetPaths) (ha : w.alive = true)
    (hi : w.state.resetIntent = true) (hb : booting w.trace = true)
    (hh : hashRead w.trace = none) :
    Spec S (durableRemove S p) w fun _ w' =>
      Stays w w' ∧ .removed p ∈ sinceBootstrap w'.trace := by
  refine ⟨?_, ?_⟩
  · apply effect_within
    intro c w₁ hc
    have hi₁ : w₁.state.resetIntent = true := by rw [hc]; exact hi
    have hb₁ : booting w₁.trace = true := by rw [hc]; exact hb
    have hh₁ : hashRead w₁.trace = none := by rw [hc]; exact hh
    split
    · apply remove_each hi₁ hb₁ hh₁
      intro q hq
      exact ⟨p, hp, (List.mem_filter.mp hq).2⟩
    · exact remove_rel hi₁ hb₁ hh₁ ⟨p, hp, inside_refl p⟩
  · intro u w' h
    obtain ⟨c, w₁, w₂, hc, hop, rfl⟩ := effect_ret h
    split at hop
    · simp at hop
    · injection hop with _ h₂
      obtain ⟨hal, hst, hfl, _, _, ws, hw, htr⟩ := authority_frame c.writes w₂
      apply Stays.of_grown rfl
      · rw [hal, ← h₂]
        change w₁.alive = true
        rw [hc]
        exact ha
      · rw [hst, ← h₂]
        change w₁.state = _
        rw [hc]
      · rw [hfl, ← h₂]
        change w₁.failed = _
        rw [hc]
      · refine ⟨ws, hw, ?_⟩
        have htrace : w₂.trace = .removed p :: w.trace := by rw [← h₂, ← hc]; rfl
        rw [htr, htrace]
        rfl

theorem removeAll_spec {ps : List Bytes} (hps : ∀ p ∈ ps, p ∈ S.profile.resetPaths)
    (ha : w.alive = true) (hi : w.state.resetIntent = true) (hb : booting w.trace = true)
    (hh : hashRead w.trace = none) :
    Spec S (each (durableRemove S) ps) w fun _ w' =>
      Stays w w' ∧ ∀ p ∈ ps, .removed p ∈ sinceBootstrap w'.trace := by
  apply Ensures.each_mem Rel.refl Rel.trans
    (fun done w' => Stays w w' ∧ ∀ p ∈ done, .removed p ∈ sinceBootstrap w'.trace) _ []
  · exact ⟨⟨Kept.refl ha, rfl, rfl, fun _ he => he⟩, by simp⟩
  · rintro done p w₁ hp ⟨hs, hd⟩
    apply Ensures.mono (durableRemove_spec (hps p hp) hs.alive (by rw [hs.state]; exact hi)
      (hs.booting.trans hb) (hs.hash.trans hh))
    rintro _ w₂ ⟨hs₂, hrem⟩
    refine ⟨hs.trans hs₂, ?_⟩
    intro q hq
    rcases List.mem_append.mp hq with hq | hq
    · exact hs₂.since _ (hd q hq)
    · rw [List.mem_singleton.mp hq]
      exact hrem

/-- What every branch of bootstrap leaves behind. -/
structure Branched (w w' : World) : Prop extends Kept w w' where
  intent : w'.state.resetIntent = false
  network : w'.state.initialized = true → running w'.trace = some w'.state.network

theorem bootstrapErase_spec (ha : w.alive = true) (hi : w.state.resetIntent = true)
    (hb : booting w.trace = true) (hd : during Op.boots w.trace = true)
    (hh : hashRead w.trace = none)
    (hst : S.profile.storageStatusFile ≠ [] → ∃ f, .status f true ∈ sinceBootstrap w.trace) :
    Spec S (bootstrapErase S) w fun _ w' => Branched w w' := by
  apply Spec.seq (removeAll_spec (fun _ hp => hp) ha hi hb hh)
  rintro _ w₁ ⟨hs₁, hr₁⟩
  have hi₁ : w₁.state.resetIntent = true := by rw [hs₁.state]; exact hi
  have hb₁ : booting w₁.trace = true := hs₁.booting.trans hb
  apply loose_spec hs₁.alive (Loose.wipe hi₁ hb₁)
  intro w' has
  have hk' : Kept w₁ w' := Kept.of_assigned has rfl rfl
  have hsince : ∀ e ∈ sinceBootstrap w₁.trace, e ∈ sinceBootstrap w'.trace := by
    intro e he
    rw [has.trace]
    exact List.mem_cons_of_mem _ he
  apply Spec.seq (bootPolicy_spec has.alive (hk'.booting.trans hb₁))
  intro _ w₂ hp₂
  have hdone : ResetDone S w₂.trace := by
    have hn := hp₂.network
    have hssh := hp₂.ssh
    have hclock := hp₂.clock
    rw [has.state] at hn hssh hclock
    refine ⟨?_, ?_, hn, hssh, hclock⟩
    · intro hne
      obtain ⟨f, hf⟩ := hst hne
      exact ⟨f, hp₂.since _ (hsince _ (hs₁.since _ hf))⟩
    · intro p hp
      exact hp₂.since _ (hsince _ (hr₁ p hp))
  have hc := Change.completeReset (S := S) (c := w₂.toCore)
    (by rw [hp₂.state, has.state]; exact hi₁) (hp₂.booting.trans (hk'.booting.trans hb₁))
    (by rw [hp₂.state, has.state]; rfl) hdone
    ((((hs₁.toKept.trans hk').trans hp₂.toKept).during Op.boots).trans hd)
  apply save_spec hp₂.alive hc
  intro w₃ hsv
  apply Spec.get
  apply event_spec
  have hk₃ : Kept w₂ w₃ := Kept.of_saved hp₂.alive hsv rfl rfl
  refine ⟨((hs₁.toKept.trans hk').trans hp₂.toKept).trans ⟨hk₃.alive, hk₃.latch, hk₃.booting,
    hk₃.call⟩, ?_, ?_⟩
  · change w₃.state.resetIntent = false
    rw [hsv.state]
    rfl
  · intro _
    change running w₃.trace = some w₃.state.network
    have hr : running w₃.trace = running w₂.trace := hsv.trace.running
    rw [hr, hp₂.running, hsv.state, ← hp₂.state]
    rfl

theorem bootstrapReset_spec (ha : w.alive = true) (hi : w.state.resetIntent = true)
    (hb : booting w.trace = true) (hd : during Op.boots w.trace = true)
    (hh : hashRead w.trace = none) :
    Spec S (bootstrapReset S) w fun _ w' => Branched w w' := by
  unfold bootstrapReset
  by_cases hne : S.profile.storageStatusFile = []
  · rw [if_neg (by simp [hne])]
    exact bootstrapErase_spec ha hi hb hd hh fun h => absurd hne h
  · rw [if_pos (by simpa using hne)]
    apply Spec.seq ⟨storageStatus_within _ w, fun _ _ h => storageStatus_ret h⟩
    rintro ⟨f, r⟩ w₁ hf
    obtain ⟨hs, he⟩ := Stays.of_entry rfl ha hf
    apply Spec.check
    intro hr
    apply Ensures.mono (bootstrapErase_spec hs.alive (by rw [hs.state]; exact hi)
      (hs.booting.trans hb) ((hs.toKept.during Op.boots).trans hd) (hs.hash.trans hh)
      fun _ => ⟨f, by rw [← hr]; exact he⟩)
    intro _ w₂ hk
    exact ⟨hs.toKept.trans hk.toKept, hk.intent, hk.network⟩

theorem bootstrapInitial_spec {b : BootPreferences} (ha : w.alive = true)
    (hi : w.state.resetIntent = false) (hn : w.state.initialized = false)
    (hb : booting w.trace = true) : Spec S (bootstrapInitial b) w fun _ w' => Branched w w' := by
  apply loose_spec ha (Loose.configuration b.initial hn hi)
  intro w' has
  have hk' : Kept w w' := Kept.of_assigned has rfl rfl
  apply Spec.seq (bootPolicy_spec has.alive (hk'.booting.trans hb))
  intro _ w₁ hs
  have hi₁ : w₁.state.resetIntent = false := by rw [hs.state, has.state]; exact hi
  have hc := Change.adopt (S := S) (c := w₁.toCore) (by rw [hs.state, has.state]; exact hn)
    hi₁ (.inl (hs.booting.trans (hk'.booting.trans hb)))
  apply Ensures.mono (save_last_spec hs.alive hc)
  intro _ w₂ hp
  have hk₂ : Kept w₁ w₂ := Kept.of_saved hs.alive hp rfl rfl
  refine ⟨(hk'.trans hs.toKept).trans hk₂, ?_, ?_⟩
  · rw [hp.state]
    exact hi₁
  · intro _
    have hr : running w₂.trace = running w₁.trace := hp.trace.running
    rw [hr, hs.running, hp.state, ← hs.state]
    rfl

theorem bootstrapHostname_spec {b : BootPreferences} {w₀ : World} (h₀ : Branched w₀ w)
    (hb : booting w₀.trace = true) (hp : S.profile.bootPreferences = some b) :
    Spec S (bootstrapHostname b) w fun _ w' => Branched w₀ w' := by
  apply loose_spec h₀.alive (Loose.hostname b (h₀.booting.trans hb) hp)
  intro w' has
  apply Spec.seq (inert_spec (fun _ => rfl) w')
  intro _ w₁ hf
  have hk₁ : Kept w₀ w₁ :=
    (h₀.toKept.trans (Kept.of_assigned has rfl rfl)).trans (Kept.of_frame has.alive hf rfl rfl)
  apply Ensures.mono (keep_spec hk₁.alive)
  intro _ w₂ hp
  have hs : w₂.state = w.state.setHostname b.managedHostname := by
    rw [hp.state, hf.state, has.state]
  refine ⟨hk₁.trans (Kept.of_persisted hk₁.alive hp), ?_, ?_⟩
  · rw [hs]
    exact h₀.intent
  · intro hi
    have hr₂ : running w₂.trace = running w₁.trace := hp.trace.running
    have hr₁ : running w₁.trace = running w'.trace := hf.trace.running
    have hr' : running w'.trace = running w.trace := by rw [has.trace]; rfl
    rw [hs] at hi
    rw [hr₂, hr₁, hr', h₀.network hi, hs]
    rfl

/-- The managed name at the end of bootstrap. -/
def bootstrapName (S : Site) : Prog Unit :=
  match S.profile.bootPreferences with
  | some b => bootstrapHostname b
  | none => pure ()

theorem bootstrap_spec (ha : w.alive = true) (hb : booting w.trace = true)
    (hd : during Op.boots w.trace = true) (hh : hashRead w.trace = none) (hl : w.failed = true → careless w.trace = true) :
    Spec S (bootstrap S) w fun _ w' => Branched w w' := by
  have last : ∀ w₁, Branched w w₁ →
      Spec S (bootstrapName S) w₁ fun _ w' => Branched w w' := by
    intro w₁ hk
    unfold bootstrapName
    cases hp : S.profile.bootPreferences with
    | some b => exact bootstrapHostname_spec hk hb hp
    | none => exact Spec.skip hk
  apply Spec.get
  dsimp only
  by_cases hi : w.state.resetIntent = true
  · rw [if_pos hi]
    exact Spec.seq (bootstrapReset_spec ha hi hb hd hh) fun _ w₁ hk => last w₁ hk
  · rw [if_neg hi]
    have hi' : w.state.resetIntent = false := by simpa using hi
    by_cases hn : w.state.initialized = true
    · rw [if_pos hn]
      apply Spec.seq (recoverNetwork_spec ha hl)
      intro _ w₁ hk
      apply Spec.seq (bootPolicy_spec hk.alive (hk.booting.trans hb))
      intro _ w₂ hs
      apply last w₂
      refine ⟨hk.toKept.trans hs.toKept, ?_, ?_⟩
      · rw [hs.state, hk.intent]
        exact hi'
      · intro _
        rw [hs.running, hs.state]
    · rw [if_neg hn]
      have hn' : w.state.initialized = false := by simpa using hn
      cases hp : S.profile.bootPreferences with
      | some b =>
        simp only [bootstrapName, hp] at last
        exact Spec.seq (bootstrapInitial_spec ha hi' hn' hb) fun _ w₁ hk => last w₁ hk
      | none =>
        simp only [bootstrapName, hp] at last
        apply Spec.seq (inert_spec (fun _ => rfl) w)
        intro _ w₁ hf
        apply last w₁
        refine ⟨Kept.of_frame ha hf rfl rfl, ?_, ?_⟩
        · rw [hf.state]
          exact hi'
        · rw [hf.state]
          exact fun h => absurd h hn

/-! ### Start -/

theorem startDiscover_spec (ha : w.alive = true) (hi : w.state.resetIntent = false)
    (hn : w.state.initialized = false) :
    Spec S startDiscover w fun _ w' =>
      Kept w w' ∧ w'.state.resetIntent = false ∧ w'.state.initialized = true := by
  apply Spec.seq ⟨discover_within ha hn, fun _ _ h => discover_ret h⟩
  intro c w₁ hf
  have hk₁ : Kept w w₁ := Kept.of_frame ha hf rfl rfl
  apply loose_spec hk₁.alive
    (Loose.configuration c (by rw [hf.state]; exact hn) (by rw [hf.state]; exact hi))
  intro w' has
  apply Spec.seq (P := fun _ w₂ => w' = w₂) (Ensures.lift Rel.refl fun _ _ => rfl)
  rintro _ w' rfl
  have hk' : Kept w₁ w' := Kept.of_assigned has rfl rfl
  have hr : running w'.trace = some w'.state.network := by
    rw [has.trace, has.state]
    exact hf.trace.running
  have hi' : w'.state.resetIntent = false := by rw [has.state, hf.state]; exact hi
  have hc := Change.adopt (S := S) (c := w'.toCore)
    (by rw [has.state, hf.state]; exact hn) hi' (.inr hr)
  apply Ensures.mono (save_last_spec has.alive hc)
  intro _ w₂ hp
  refine ⟨(hk₁.trans hk').trans (Kept.of_saved hk'.alive hp rfl rfl), ?_, ?_⟩
  · rw [hp.state]
    exact hi'
  · rw [hp.state]

/-- What start leaves behind, unless a reset is due. -/
structure Started (w w' : World) : Prop extends Kept w w' where
  initialized : w'.state.resetIntent = false → w'.state.initialized = true
  closed : w'.state.resetIntent = false → w'.state.isOpen = false

theorem startInterrupt_spec {w₀ : World} (h₀ : Kept w₀ w) (hs : during Op.starts w₀.trace = true)
    (hn : w.state.initialized = true) (ho : w.state.isOpen = false)
    (hi : w.state.resetIntent = false) : Spec S startInterrupt w fun _ w' => Started w₀ w' := by
  apply Spec.get
  split
  next hj =>
    apply save_spec h₀.alive (Change.interrupt ((h₀.during _).trans hs) ho hi (by simpa using hj))
    intro w₁ hp
    apply Spec.get
    apply event_spec
    have hk : Kept w w₁ := Kept.of_saved h₀.alive hp rfl rfl
    refine ⟨h₀.trans ⟨hk.alive, hk.latch, hk.booting, hk.call⟩, fun _ => ?_, fun _ => ?_⟩
    · change w₁.state.initialized = true
      rw [hp.state]
      exact hn
    · change w₁.state.isOpen = false
      rw [hp.state]
      exact ho
  next => exact Spec.skip ⟨h₀, fun _ => hn, fun _ => ho⟩

theorem start_spec (ha : w.alive = true) (hs : during Op.starts w.trace = true)
    (hl : w.failed = true → careless w.trace = true) :
    Spec S (start S) w fun _ w' => Started w w' := by
  have last : ∀ w₁, Kept w w₁ → w₁.state.resetIntent = false → w₁.state.initialized = true →
      Spec S (do recoverNetwork S false; startInterrupt) w₁ fun _ w' => Started w w' := by
    intro w₁ hk₁ hi₁ hn₁
    apply Spec.seq (recoverNetwork_spec hk₁.alive (hk₁.late hl))
    intro _ w₂ hr
    exact startInterrupt_spec (hk₁.trans hr.toKept) hs (hr.initialized.trans hn₁) hr.closed
      (hr.intent.trans hi₁)
  apply Spec.get
  by_cases hi : w.state.resetIntent = true
  · rw [if_pos hi]
    apply Spec.seq (readClock_spec w)
    intro t w₁ hf
    have hk : Kept w w₁ := Kept.of_frame ha hf rfl rfl
    have hi₁ : w₁.state.resetIntent = true := by rw [hf.state]; exact hi
    have hn : ¬ w₁.state.resetIntent = false := by rw [hi₁]; simp
    apply Spec.assign (Rel.move (Move.arm (add64 t 5000) hk.alive
      (.inr ⟨hi₁, (hk.during _).trans hs⟩)) (Steady.refl _))
    exact ⟨⟨hk.alive, hk.latch, hk.booting, hk.call⟩, fun h => absurd h hn, fun h => absurd h hn⟩
  · rw [if_neg hi]
    have hi' : w.state.resetIntent = false := by simpa using hi
    dsimp only
    by_cases hn : w.state.initialized = false
    · rw [if_pos (by simp [hn])]
      apply Spec.seq (startDiscover_spec ha hi' hn)
      rintro _ w₁ ⟨hk₁, hi₁, hn₁⟩
      exact last w₁ hk₁ hi₁ hn₁
    · rw [if_neg (by simpa using hn)]
      exact last w (Kept.refl ha) hi' (by simpa using hn)

/-! ### Tick -/

/-- The clock readings of the call are still there. -/
def Remembers (w w' : World) : Prop :=
  ∀ u, .reading u ∈ sinceCall w.trace → .reading u ∈ sinceCall w'.trace

theorem Remembers.of_grown {es : List Entry} (h : Grown es w.trace w'.trace)
    (hes : ∀ e ∈ es, e.isCall = false) : Remembers w w' :=
  fun _ hu => h.sinceCall hes (List.mem_append_right es hu)

theorem Remembers.trans {w₁ w₂ : World} (h : Remembers w w₁) (h' : Remembers w₁ w₂) :
    Remembers w w₂ := fun u hu => h' u (h u hu)

/-- What the dispatch of a job leaves behind. -/
structure Dispatched (w w' : World) : Prop extends Kept w w' where
  sound : w'.failed = false
  pending : w'.state.pending = w.state.pending
  readings : Remembers w w'

/-- A transaction that is open after a tick is the one before, and not due. -/
structure Ticked (w w' : World) : Prop extends Kept w w' where
  sound : w'.failed = false
  same : w'.state.isOpen = true → w'.state.pending = w.state.pending
  due : w'.state.isOpen = true →
    ∃ u, .reading u ∈ sinceCall w'.trace ∧ u < w'.state.pending.deadline

theorem dispatchPower_spec (ha : w.alive = true) (hf : w.failed = false)
    (hj : w.journal = some w.state) (hs : w.state.job.state = .dispatched)
    (hh : handoff w.trace = true) :
    Spec S dispatchPower w fun _ w' => Dispatched w w' := by
  apply Spec.get
  apply Ensures.attempt Rel.trans
  · apply Spec.seq ⟨power_within ha hf hj hs hh, fun _ _ h => power_ret h⟩
    intro _ w₁ hp
    have hk : Kept w w₁ := Kept.of_frame ha hp rfl rfl
    exact event_spec ⟨⟨hk.alive, hk.latch, hk.booting, hk.call⟩, hp.failed.trans hf,
      congrArg State.pending hp.state, Remembers.of_grown hp.trace (by simp [Entry.isCall])⟩
  · intro e w₁ h
    obtain ⟨_, w₂, h₁, h₂⟩ | h := bind_raise h
    · simp [event] at h₂
    · have hp := power_raise h
      have hc := Change.powerFailed (S := S) (c := w₁.toCore) (by rw [hp.state]; exact hs)
      apply save_spec (hp.alive.trans ha) hc
      intro w₂ _
      apply event_bind_spec
      exact Ensures.raise Rel.refl

theorem dispatch_spec (ha : w.alive = true) (hd : w.jobDeadline ≠ 0) :
    Spec S dispatch w fun _ w' => Dispatched w w' := by
  have hk : ∀ w₁, Persisted { w with
        jobDeadline := 0, state := w.state.setJob .dispatched, trace := [.dispatching] ++ w.trace } w₁ →
      Spec S dispatchPower w₁ fun _ w' => Dispatched w w' := by
    intro w₁ hp
    have hk : Kept w w₁ := Kept.of_saved ha hp rfl rfl
    have hr : Remembers w w₁ := by
      intro u hu
      apply hp.trace.sinceCall (by simp [Entry.isCall])
      exact List.mem_cons_of_mem _ (List.mem_cons_of_mem _ hu)
    apply Ensures.mono (dispatchPower_spec hk.alive hp.failed ?_ ?_ hp.trace.handoff)
    · intro _ w₂ ht
      refine ⟨hk.trans ht.toKept, ht.sound, ?_, hr.trans ht.readings⟩
      rw [ht.pending, hp.state]
      rfl
    · rw [hp.state]
      exact hp.journal
    · rw [hp.state]
      rfl
  -- The move begins before the deadline is reset, with the job still armed.
  have hm : ∀ c', Saved { w.toCore with jobDeadline := 0 } (w.state.setJob .dispatched)
      [.dispatching] c' → Move S w.toCore c' := fun _ hs => Move.dispatch ha hd hs
  refine ⟨?_, ?_⟩
  · exact saved_within { w with jobDeadline := 0 } (·.setJob .dispatched) [.dispatching]
      (fun _ => dispatchPower) hm ⟨rfl, fun _ _ => rfl⟩ fun w₁ hp => (hk w₁ hp).within
  · intro u w' h
    exact saved_post { w with jobDeadline := 0 } (·.setJob .dispatched) [.dispatching]
      (fun _ => dispatchPower) hk h

/-- The observer only touches the carriers and the audit log, and does not raise. -/
theorem observeLink_ret (link : NetworkStatus) (w : World) :
    ∃ w', observeLink S link w = (.ret (), w') ∧ w'.toCore = w.toCore := by
  unfold observeLink
  split
  · rw [gets_bind]
    cases w.carriers.lookup link.interface with
    | some previous =>
      by_cases hp : (previous != link.carrier) = true
      · simp only [if_pos hp]
        exact ⟨_, rfl, rfl⟩
      · simp only [if_neg hp]
        exact ⟨_, rfl, rfl⟩
    | none => exact ⟨_, rfl, rfl⟩
  · exact ⟨_, rfl, rfl⟩

theorem observeLinks_ret (links : List NetworkStatus) (w : World) :
    ∃ w', each (observeLink S) links w = (.ret (), w') ∧ w'.toCore = w.toCore := by
  induction links generalizing w with
  | nil => exact ⟨w, rfl, rfl⟩
  | cons link links ih =>
    obtain ⟨w₁, h₁, hc₁⟩ := observeLink_ret (S := S) link w
    obtain ⟨w₂, h₂, hc₂⟩ := ih w₁
    exact ⟨w₂, (bind_of_ret h₁).trans h₂, hc₂.trans hc₁⟩

theorem observeNetwork_spec (w : World) :
    Spec S (observeNetwork S) w fun _ w' => Frame [] w w' := by
  apply Ensures.attempt Rel.trans
  · apply Spec.seq ⟨networkLinks_within w, fun _ _ h => networkLinks_ret h⟩
    intro links w₁ hf
    apply Spec.modify (Rel.of_eq rfl)
    obtain ⟨w₂, h, hc⟩ := observeLinks_ret (S := S) links { w₁ with
      carriers := w₁.carriers.filter fun previous => links.any (·.interface == previous.1) }
    refine ⟨?_, ?_⟩
    · unfold Within
      rw [h]
      exact Rel.of_eq hc
    · intro u w' hu
      rw [h] at hu
      injection hu with _ hw
      rw [← hw]
      exact hf.comp (Frame.of_core hc) rfl
  · intro e w₁ h
    obtain ⟨links, w₂, _, h₂⟩ | h := bind_raise h
    · obtain ⟨w₃, h₃, _⟩ := observeLinks_ret (S := S) links { w₂ with
        carriers := w₂.carriers.filter fun previous => links.any (·.interface == previous.1) }
      rw [modify_bind, h₃] at h₂
      simp at h₂
    · exact Spec.skip (networkLinks_raise h)

theorem tickObserve_spec (w : World) : Spec S (tickObserve S) w fun _ w' => Frame [] w w' := by
  apply Spec.seq (readClock_spec w)
  intro t w₁ h₁
  apply Spec.get
  split
  · apply Spec.seq (readClock_spec w₁)
    intro t₂ w₂ h₂
    apply Spec.modify (Rel.of_eq rfl)
    apply Ensures.mono (observeNetwork_spec _)
    intro _ w₃ h₃
    have hf : Frame [] w w₂ := h₁.comp h₂ rfl
    have hf' : Frame [] w₂ { w₂ with nextObservation := add64 t₂ 1000 } := Frame.of_core rfl
    exact (hf.comp hf' rfl).comp h₃ rfl
  · exact Spec.skip h₁

theorem tickExpire_spec (ha : w.alive = true) (hf : w.failed = false) :
    Spec S (tickExpire S) w fun _ w' => Ticked w w' := by
  apply Spec.get
  split
  · apply Spec.seq (readClock_read_spec w)
    rintro t w₁ ⟨h₁, -⟩
    have hk₁ : Kept w w₁ := Kept.of_frame ha h₁ rfl rfl
    have hf₁ : w₁.failed = false := h₁.failed.trans hf
    split
    · apply Ensures.mono (recoverNetwork_spec hk₁.alive fun h => absurd h (by rw [hf₁]; simp))
      intro _ w₂ hr
      have hn : ¬ w₂.failed = true := fun h => absurd (hr.latch h) (by rw [hf₁]; simp)
      have hc : ¬ w₂.state.isOpen = true := by simp [hr.closed]
      exact ⟨hk₁.trans hr.toKept, by simpa using hn, fun h => absurd h hc, fun h => absurd h hc⟩
    · rename_i hlt
      have hread : .reading t ∈ sinceCall w₁.trace :=
        h₁.trace.sinceCall (by simp [Entry.isCall]) (List.mem_cons_self ..)
      refine Spec.skip ⟨hk₁, hf₁, fun _ => congrArg State.pending h₁.state, fun _ => ⟨t, hread, ?_⟩⟩
      rw [h₁.state]
      omega
  · rename_i ho
    exact Spec.skip ⟨Kept.refl ha, hf, fun _ => rfl, fun h => absurd h ho⟩

theorem tickDispatch_spec (ha : w.alive = true) (hf : w.failed = false) :
    Spec S tickDispatch w fun _ w' => Dispatched w w' := by
  apply Spec.get
  split
  next hd =>
    apply Spec.seq (readClock_spec w)
    intro t w₁ h₁
    have hk₁ : Kept w w₁ := Kept.of_frame ha h₁ rfl rfl
    have hr₁ : Remembers w w₁ := Remembers.of_grown h₁.trace (by simp)
    have hp₁ : w₁.state.pending = w.state.pending := congrArg State.pending h₁.state
    split
    · apply Ensures.mono (dispatch_spec hk₁.alive (by rw [h₁.jobDeadline]; simpa using hd))
      intro _ w₂ ht
      exact ⟨hk₁.trans ht.toKept, ht.sound, ht.pending.trans hp₁, hr₁.trans ht.readings⟩
    · exact Spec.skip ⟨hk₁, h₁.failed.trans hf, hp₁, hr₁⟩
  next => exact Spec.skip ⟨Kept.refl ha, hf, rfl, fun _ hu => hu⟩

theorem tick_spec (ha : w.alive = true) : Spec S (tick S) w fun _ w' => Ticked w w' := by
  apply Spec.get
  apply Spec.check
  intro hf
  have hf' : w.failed = false := by simpa using hf
  apply Spec.seq (tickObserve_spec w)
  intro _ w₁ h₁
  have hk₁ : Kept w w₁ := Kept.of_frame ha h₁ rfl rfl
  apply Spec.seq (tickExpire_spec hk₁.alive (h₁.failed.trans hf'))
  intro _ w₂ ht₂
  apply Ensures.mono (tickDispatch_spec ht₂.alive ht₂.sound)
  intro _ w₃ ht₃
  have hopen : w₃.state.isOpen = true → w₂.state.isOpen = true := by
    intro ho
    rw [State.isOpen, ht₃.pending] at ho
    exact ho
  refine ⟨(hk₁.trans ht₂.toKept).trans ht₃.toKept, ht₃.sound, ?_, ?_⟩
  · intro ho
    rw [ht₃.pending, ht₂.same (hopen ho), h₁.state]
  · intro ho
    obtain ⟨u, hu, hlt⟩ := ht₂.due (hopen ho)
    exact ⟨u, ht₃.readings u hu, by rw [ht₃.pending]; exact hlt⟩

/-! ### Preferences -/

theorem idle_bind_spec {f : Unit → Prog β} {Q : β → World → Prop}
    (hf : w.failed = false → Idle w.state → Spec S (f ()) w Q) : Spec S (idle >>= f) w Q := by
  apply Spec.seq (P := fun _ w' => w' = w ∧ w.failed = false ∧ Idle w.state)
  · apply Spec.get
    apply Spec.check
    intro hfl
    apply Spec.get
    apply Ensures.require Rel.refl
    intro hi
    simp only [Bool.not_eq_true', Bool.or_eq_false_iff, beq_eq_false_iff_ne] at hi
    exact ⟨rfl, by simpa using hfl, hi.1.1, hi.1.2, hi.2⟩
  · rintro _ w' ⟨rfl, hfl, hi⟩
    exact hf hfl hi

theorem checkHostname_bind_spec {config : Configuration} {f : Unit → Prog β}
    {Q : β → World → Prop} (hf : ManagedHostname S config → Spec S (f ()) w Q) :
    Spec S (checkHostname S config >>= f) w Q := by
  unfold checkHostname
  cases hp : S.profile.bootPreferences with
  | some b =>
    apply Spec.check
    intro hb
    apply hf
    intro b' hb'
    rw [hp] at hb'
    injection hb' with hb'
    rw [← hb']
    simpa using hb
  | none =>
    have hm : ManagedHostname S config := by
      intro b hb
      rw [hp] at hb
      simp at hb
    exact hf hm

theorem lift_bind_spec {x : Except Error α} {f : α → Prog β} {Q : β → World → Prop}
    (hf : ∀ a, x = .ok a → Spec S (f a) w Q) : Spec S (lift x >>= f) w Q := by
  apply Spec.seq (P := fun a w' => x = .ok a ∧ w' = w)
  · exact Ensures.lift Rel.refl fun a ha => ⟨ha, rfl⟩
  · rintro a w' ⟨ha, rfl⟩
    exact hf a ha

theorem applyForward_spec {config : Configuration} (ha : w.alive = true) (hf : w.failed = false)
    (hs : during Op.serves w.trace = true) (hi : Idle w.state)
    (hn : w.state.initialized = true → config.system.network = w.state.network) :
    Spec S (applyForward config) w fun _ _ => True := by
  apply Spec.seq (inert_spec (fun _ => rfl) w)
  intro _ w₁ h₁
  apply Spec.seq (inert_spec (fun _ => rfl) w₁)
  intro _ w₂ h₂
  have hk : Kept w w₂ := (Kept.of_frame ha h₁ rfl rfl).trans
    (Kept.of_frame (h₁.alive.trans ha) h₂ rfl rfl)
  have hst : w₂.state = w.state := h₂.state.trans h₁.state
  have hc := Change.configure (S := S) (c := w₂.toCore) config
    (h₂.failed.trans (h₁.failed.trans hf)) ((hk.during _).trans hs) (by rw [hst]; exact hi)
    (by rw [hst]; exact hn)
  apply Ensures.mono (save_last_spec hk.alive hc)
  exact fun _ _ _ => trivial

/-- When the forward part raises, memory is unchanged or the latch is set. -/
theorem applyForward_raise {config : Configuration} {e : Error} (ha : w.alive = true)
    (ho : w.state.isOpen = false) (h : applyForward config w = (.raise e, w')) :
    w'.alive = true ∧ w'.state.isOpen = false ∧ (w'.failed = true ∨ w'.state = w.state) := by
  obtain ⟨_, w₁, h₁, h⟩ | h := bind_raise h
  · have hf₁ := platformCall_ret h₁
    obtain ⟨_, w₂, h₂, h⟩ | h := bind_raise h
    · have hf₂ := platformCall_ret h₂
      obtain ⟨ha₃, hs₃, hf₃⟩ := persist_raise (w := { w₂ with
        state := w₂.state.configure config, trace := [] ++ w₂.trace }) h
      refine ⟨ha₃.trans (hf₂.alive.trans (hf₁.alive.trans ha)), ?_, .inl hf₃⟩
      rw [hs₃]
      change w₂.state.isOpen = false
      rw [hf₂.state, hf₁.state]
      exact ho
    · have hf₂ := platformCall_raise h
      have hs : w'.state = w.state := hf₂.state.trans hf₁.state
      exact ⟨hf₂.alive.trans (hf₁.alive.trans ha), by rw [hs]; exact ho, .inr hs⟩
  · have hf₁ := platformCall_raise h
    exact ⟨hf₁.alive.trans ha, by rw [hf₁.state]; exact ho, .inr hf₁.state⟩

theorem applyRollback_spec {previous : Configuration} (ha : w.alive = true)
    (ho : w.state.isOpen = false) (hr : w.failed = true ∨ previous = w.state.configuration) :
    Spec S (applyRollback previous) w fun _ _ => True := by
  apply loose_spec ha (Loose.revert previous ho hr)
  intro w₁ has
  apply Ensures.attempt Rel.trans
  · apply Spec.seq (inert_spec (fun _ => rfl) w₁)
    intro _ w₂ h₂
    apply Spec.seq (inert_spec (fun _ => rfl) w₂)
    intro _ w₃ h₃
    apply Ensures.mono (keep_spec (h₃.alive.trans (h₂.alive.trans has.alive)))
    exact fun _ _ _ => trivial
  · intro _ w₂ _
    exact Ensures.raise Rel.refl

theorem apply_spec {config : Configuration} (ha : w.alive = true)
    (hs : during Op.serves w.trace = true) : Spec S (apply S config) w fun _ _ => True := by
  apply idle_bind_spec
  intro hf hi
  apply lift_bind_spec
  intro _ _
  apply checkHostname_bind_spec
  intro _
  apply Spec.seq (validateConfiguration_spec config w)
  intro _ w₁ h₁
  apply Spec.get
  apply Spec.check
  intro hn
  have hk₁ : Kept w w₁ := Kept.of_frame ha h₁ rfl rfl
  have hi₁ : Idle w₁.state := by rw [h₁.state]; exact hi
  have hn' : w₁.state.initialized = true → config.system.network = w₁.state.network := by
    intro hi
    simpa [hi] using hn
  apply Ensures.attempt Rel.trans
  · exact applyForward_spec hk₁.alive (h₁.failed.trans hf) ((hk₁.during _).trans hs) hi₁ hn'
  · intro e w₂ h
    obtain ⟨ha₂, ho₂, hr⟩ := applyForward_raise hk₁.alive hi₁.1 h
    apply Spec.seq (applyRollback_spec ha₂ ho₂ (hr.imp_right fun hs => by rw [hs]))
    intro _ _ _
    exact Ensures.raise Rel.refl

/-! ### Network transactions -/

/-- An open transaction is not due: a reading of the call is before its deadline. -/
def NotDue (w : World) : Prop :=
  w.state.isOpen = true → ∃ u, .reading u ∈ sinceCall w.trace ∧ u < w.state.pending.deadline

theorem NotDue.of_frame (h : NotDue w) (hf : Frame [] w w') : NotDue w' := by
  intro ho
  rw [hf.state] at ho
  obtain ⟨u, hu, hlt⟩ := h ho
  exact ⟨u, Remembers.of_grown hf.trace (by simp) u hu, by rw [hf.state]; exact hlt⟩

theorem networkTransaction_spec (ha : w.alive = true) :
    Spec S (networkTransaction S) w fun _ w' => NotDue w' := by
  apply Spec.seq (tick_spec ha)
  intro _ w₁ ht
  apply Spec.get
  apply Spec.seq (P := fun _ w' => Frame [] w₁ w')
  · unfold remaining
    split
    · apply Spec.seq (readClock_spec w₁)
      intro t w₂ h₂
      split
      · apply Spec.seq (readClock_spec w₂)
        intro _ w₃ h₃
        exact Ensures.pure Rel.refl (h₂.comp h₃ rfl)
      · exact Ensures.pure Rel.refl h₂
    · exact Ensures.pure Rel.refl (Frame.refl w₁)
  · intro _ w₂ h₂
    exact Ensures.pure Rel.refl (NotDue.of_frame ht.due h₂)

structure Proposable (S : Site) (p : NetworkProposal) (c : Core) : Prop where
  alive : c.alive = true
  sound : c.failed = false
  serves : during Op.serves c.trace = true
  idle : Idle c.state
  hashes : p.previousSettingsHash ≠ p.candidateSettingsHash
  read : hashRead c.trace = some p.previousSettingsHash
  hostname : ManagedHostname S c.state.configuration

theorem checkProposal_spec {p : NetworkProposal} (ha : w.alive = true)
    (hs : during Op.serves w.trace = true) :
    Spec S (checkProposal S p) w fun _ w' => Proposable S p w'.toCore := by
  apply idle_bind_spec
  intro hf hi
  apply Spec.get
  apply lift_bind_spec
  intro _ _
  apply checkHostname_bind_spec
  intro hm
  apply Spec.seq (validateConfiguration_spec _ w)
  intro _ w₁ h₁
  apply Spec.check
  intro hne
  apply Spec.seq (fileHash_spec w₁)
  intro h w₂ h₂
  apply Ensures.require Rel.refl
  intro hh
  have hk : Kept w w₂ := (Kept.of_frame ha h₁ rfl rfl).trans
    (Kept.of_frame (h₁.alive.trans ha) h₂ rfl rfl)
  have hst : w₂.state = w.state := h₂.state.trans h₁.state
  have hread : hashRead w₂.trace = some h := h₂.trace.hashRead
  refine ⟨hk.alive, h₂.failed.trans (h₁.failed.trans hf), (hk.during _).trans hs,
    by rw [hst]; exact hi, ?_, ?_, by rw [hst]; exact hm⟩
  · simp only [Bool.and_eq_true, bne_iff_ne] at hne
    exact hne.2
  · rw [hread]
    simpa using hh

theorem Proposable.of_frame {p : NetworkProposal} (h : Proposable S p w.toCore)
    (hf : Frame [] w w') : Proposable S p w'.toCore := by
  have hk : Kept w w' := Kept.of_frame h.alive hf rfl rfl
  refine ⟨hk.alive, hf.failed.trans h.sound, (hk.during _).trans h.serves, ?_, h.hashes, ?_, ?_⟩
  · rw [hf.state]
    exact h.idle
  · rw [hf.trace.hashRead]
    exact h.read
  · rw [hf.state]
    exact h.hostname

theorem beginNetwork_spec {p : NetworkProposal} {actor requestId : Bytes} (ha : w.alive = true)
    (hs : during Op.serves w.trace = true) :
    Spec S (beginNetwork S p actor requestId) w fun _ _ => True := by
  apply Spec.seq (checkProposal_spec ha hs)
  intro _ w₀ h₀
  apply Spec.seq (randomId_spec w₀)
  intro id w₁ h₁
  apply Spec.seq (P := fun t w' => Frame [] w₁ w' ∧ lastReading w'.trace = some t)
    ⟨readClock_within w₁, fun _ _ h => ⟨readClock_ret h, readClock_last h⟩⟩
  rintro t w₂ ⟨h₂, hlast⟩
  apply Spec.get
  have hp : Proposable S p w₂.toCore := (h₀.of_frame h₁).of_frame h₂
  have hc := Change.begin (S := S) (c := w₂.toCore) p id actor requestId t hp.sound
    hp.serves hp.idle hp.hashes hp.read hp.hostname hlast
  apply save_spec (f := fun s => { s with pending := proposed s p id actor requestId t }) hp.alive hc
  intro w₃ h₃
  have ha₃ : w₃.alive = true := h₃.alive.trans hp.alive
  have hpend : w₃.state.pending.transaction.state = .pending := by rw [h₃.state]; rfl
  have hopen : w₃.state.isOpen = true := by rw [State.isOpen, hpend]; rfl
  have hg : NetworkGuard w₃.toCore p.network :=
    NetworkGuard.proposed h₃.failed (by rw [h₃.state]; exact h₃.journal) hopen
      (by rw [h₃.state]; rfl)
  apply Spec.seq (P := fun _ w' => w'.alive = true)
  · apply Ensures.attempt Rel.trans
    · apply Ensures.mono (network_spec ha₃ hg)
      intro _ w₄ h₄
      exact h₄.alive.trans ha₃
    · intro e w₄ h
      have h₄ := network_raise h
      have hd : Decided w₄.toCore false := .inl (by rw [h₄.state]; exact hpend)
      have hl : w₄.failed = true → careless w₄.trace = true := by
        intro hf
        rw [h₄.failed, h₃.failed] at hf
        simp at hf
      apply Spec.seq (settleNetwork_spec (h₄.alive.trans ha₃) hl (by rw [h₄.state]; exact hopen) hd)
      intro _ _ _
      exact Ensures.raise Rel.refl
  · intro _ w₄ ha₄
    apply Spec.get
    apply event_bind_spec
    exact Ensures.mono (networkTransaction_spec ha₄) fun _ _ _ => trivial

/-- prepareNetworkCommit returns only before the deadline that it found, which it leaves or
replaces by one counted from a reading. -/
structure Prepared (w w' : World) : Prop where
  due : NotDue w' ∨
    ∃ u, .reading u ∈ sinceCall w'.trace ∧ w'.state.pending.deadline = add64 u 30000
  early : ∃ u, .reading u ∈ sinceCall w'.trace ∧ u < w.state.pending.deadline

theorem prepareNetworkCommit_spec {id : Bytes} (ha : w.alive = true)
    (hs : during Op.serves w.trace = true) :
    Spec S (prepareNetworkCommit S id) w fun _ w' => Prepared w w' := by
  apply Spec.seq (tick_spec ha)
  intro _ w₁ ht
  apply Spec.seq (P := fun _ w' => w' = w₁ ∧ w₁.state.isOpen = true)
  · apply Spec.get
    apply Ensures.require Rel.refl
    intro hid
    simp only [Bool.and_eq_true] at hid
    exact ⟨rfl, hid.1⟩
  · rintro _ w' ⟨rfl, hopen⟩
    obtain ⟨u, hu, hlt⟩ := ht.due hopen
    have hlt' : u < w.state.pending.deadline := by
      rw [← ht.same hopen]
      exact hlt
    apply Spec.get
    split
    next => exact Spec.skip ⟨.inl ht.due, u, hu, hlt'⟩
    next hc =>
      apply Spec.seq (fileHash_spec w')
      intro h w₂ h₂
      apply Spec.check
      intro hh
      apply Spec.seq (readClock_read_spec w₂)
      rintro t w₃ ⟨h₃, -⟩
      have hk : Kept w w₃ := (ht.toKept.trans (Kept.of_frame ht.alive h₂ rfl rfl)).trans
        (Kept.of_frame (h₂.alive.trans ht.alive) h₃ rfl rfl)
      have hst : w₃.state = w'.state := h₃.state.trans h₂.state
      have hpend : w₃.state.pending.transaction.state = .pending := by
        rw [hst]
        exact pending_of_open hopen (by simpa using hc)
      have hread : hashRead w₃.trace = some w₃.state.pending.previousHash := by
        have hh₂ : hashRead w₂.trace = some h := h₂.trace.hashRead
        have hh₃ : hashRead w₃.trace = hashRead w₂.trace := h₃.trace.hashRead
        rw [hh₃, hh₂, hst]
        simpa using hh
      have hfl : w₃.failed = false := h₃.failed.trans (h₂.failed.trans ht.sound)
      have ht₃ : .reading t ∈ sinceCall w₃.trace :=
        h₃.trace.sinceCall (by simp [Entry.isCall]) (List.mem_cons_self ..)
      have hu₃ : .reading u ∈ sinceCall w₃.trace :=
        ((Remembers.of_grown h₂.trace (by simp [Entry.isCall])).trans
          (Remembers.of_grown h₃.trace (by simp [Entry.isCall]))) u hu
      have hc := Change.prepare (S := S) (c := w₃.toCore) t hfl ((hk.during _).trans hs) hpend hread
        ht₃ ⟨u, hu₃, by rw [hst]; exact hlt⟩
      apply Ensures.mono (save_last_spec (f := (·.prepare (add64 t 30000))) hk.alive hc)
      intro _ w₄ h₄
      have hr₄ : ∀ v, .reading v ∈ sinceCall w₃.trace → .reading v ∈ sinceCall w₄.trace :=
        fun v hv => h₄.trace.sinceCall (by simp [Entry.isCall]) (List.mem_cons_of_mem _ hv)
      refine ⟨.inr ⟨t, hr₄ t ht₃, ?_⟩, u, hr₄ u hu₃, hlt'⟩
      rw [h₄.state]
      rfl

theorem checkFinish_spec {commit : Bool} (ha : w.alive = true) (ho : w.state.isOpen = true) :
    Spec S (checkFinish S commit) w fun _ w' =>
      Kept w w' ∧ w'.state = w.state ∧ Decided w'.toCore commit := by
  apply Spec.get
  split
  next hc =>
    have hc' : w.state.pending.transaction.state = .committing := by simpa using hc
    apply Spec.seq (fileHash_spec w)
    intro h w₁ h₁
    have hread : hashRead w₁.trace = some h := h₁.trace.hashRead
    cases commit with
    | true =>
      apply Ensures.require Rel.refl
      intro hh
      refine ⟨Kept.of_frame ha h₁ rfl rfl, h₁.state, ?_, ?_⟩
      · rw [h₁.state]
        exact hc'
      · rw [hread, h₁.state]
        simpa using hh
    | false =>
      apply Ensures.require Rel.refl
      intro hh
      refine ⟨Kept.of_frame ha h₁ rfl rfl, h₁.state, .inr ⟨h, hread, ?_⟩⟩
      rw [h₁.state]
      simpa using hh
  next hc =>
    apply Ensures.require Rel.refl
    intro hcom
    refine ⟨Kept.refl ha, rfl, ?_⟩
    obtain rfl : commit = false := by simpa using hcom
    exact .inl (pending_of_open ho (by simpa using hc))

/-- What a state reports of a transaction once it is settled. -/
structure Reports (id : Bytes) (commit : Bool) (s : State) : Prop where
  id : s.pending.transaction.id = id
  state : s.pending.transaction.state = if commit then .committed else .rolledBack

theorem finishNetwork_spec {id actor requestId : Bytes} {commit : Bool} (ha : w.alive = true)
    (hl : w.failed = true → careless w.trace = true) :
    Spec S (finishNetwork S id commit actor requestId) w fun _ w' =>
      w'.alive = true ∧ Reports id commit w'.state := by
  apply Spec.get
  by_cases hsame : (id == w.state.pending.transaction.id &&
      w.state.pending.transaction.state == (if commit then .committed else .rolledBack)) = true
  · rw [if_pos hsame]
    simp only [Bool.and_eq_true, beq_iff_eq] at hsame
    exact Spec.skip ⟨ha, hsame.1.symm, hsame.2⟩
  · rw [if_neg hsame]
    apply Spec.seq (P := fun _ w' => w' = w ∧ w.state.isOpen = true ∧
      id = w.state.pending.transaction.id)
    · apply Spec.get
      apply Ensures.require Rel.refl
      intro hid
      simp only [Bool.and_eq_true, beq_iff_eq] at hid
      exact ⟨rfl, hid.1, hid.2⟩
    · rintro _ w' ⟨rfl, hopen, hid⟩
      apply Spec.seq (checkFinish_spec ha hopen)
      rintro _ w₁ ⟨hk₁, hs₁, hd₁⟩
      apply loose_spec hk₁.alive (Loose.relabel actor requestId)
      intro w₂ has
      have hd₂ : Decided w₂.toCore commit := by
        unfold Decided at hd₁ ⊢
        rw [has.state, has.trace]
        exact hd₁
      have ho₂ : w₂.state.isOpen = true := by
        rw [has.state, hs₁]
        exact hopen
      have hk₂ : Kept w' w₂ := hk₁.trans (Kept.of_assigned has rfl rfl)
      apply Ensures.mono (settleNetwork_spec has.alive (hk₂.late hl) ho₂ hd₂)
      rintro _ w₃ ⟨hk₃, _, hs₃⟩
      refine ⟨hk₃.alive, ?_, ?_⟩
      · rw [hs₃, has.state, hs₁]
        exact hid.symm
      · rw [hs₃]
        rfl

/-! ### Power and reset -/

theorem acceptJob_spec {job : Job} {reset : Bool} {actor requestId : Bytes} (ha : w.alive = true)
    (hf : w.failed = false) (hs : during Op.requestsJob w.trace = true) (hi : Idle w.state)
    (hj : job.state = .accepted) (hr : reset = (job.action == .deviceReset)) :
    Spec S (acceptJob job reset actor requestId) w fun _ _ => True := by
  subst hr
  have hc := Change.job (S := S) (c := w.toCore) job actor requestId hf hs hi hj
  apply save_spec (f := fun s => { s with
      job := job, resetIntent := s.resetIntent || job.action == .deviceReset
      jobActor := actor, jobRequestId := requestId }) ha hc
  intro w₁ h₁
  have hk₁ : Kept w w₁ := Kept.of_saved ha h₁ rfl rfl
  apply Spec.get
  apply event_bind_spec
  apply Spec.seq (readClock_spec _)
  intro t w₂ h₂
  have hcr : createdInCall w₂.trace = true := by
    have hc₁ : createdInCall w₁.trace = true := h₁.trace.createdInCall
    have hc₂ : createdInCall w₂.trace = createdInCall w₁.trace := h₂.trace.createdInCall
    exact hc₂.trans hc₁
  have hcall : callOf w₂.trace = callOf w.trace := h₂.trace.callOf.trans hk₁.call
  have hd : during Op.requestsJob w₂.trace = true := by
    unfold during at hs ⊢
    rw [hcall]
    exact hs
  apply Spec.modify (Rel.move (Move.arm (add64 t 5000) (h₂.alive.trans (h₁.alive.trans ha))
    (.inl ⟨h₂.failed.trans h₁.failed, hcr, hd⟩)) (Steady.refl _))
  exact Ensures.pure Rel.refl trivial

theorem power_spec {action : PowerAction} {actor requestId : Bytes} (ha : w.alive = true)
    (hs : during Op.requestsJob w.trace = true) :
    Spec S (power action actor requestId) w fun _ _ => True := by
  apply idle_bind_spec
  intro hf hi
  apply Spec.check
  intro _
  apply Spec.seq (randomId_spec w)
  intro id w₁ h₁
  have hk₁ : Kept w w₁ := Kept.of_frame ha h₁ rfl rfl
  apply acceptJob_spec hk₁.alive (h₁.failed.trans hf) ((hk₁.during _).trans hs)
    (by rw [h₁.state]; exact hi) rfl
  cases action <;> rfl

theorem resetDevice_spec {confirmed : Bool} {actor requestId : Bytes} (ha : w.alive = true)
    (hs : during Op.requestsJob w.trace = true) :
    Spec S (resetDevice S confirmed actor requestId) w fun _ _ => True := by
  have last : ∀ w₁, Kept w w₁ → w₁.failed = false → Idle w₁.state →
      Spec S (do
        let id ← randomId
        acceptJob ⟨id, .deviceReset, .accepted⟩ true actor requestId) w₁ fun _ _ => True := by
    intro w₁ hk₁ hf₁ hi₁
    apply Spec.seq (randomId_spec w₁)
    intro id w₂ h₂
    have hk₂ : Kept w w₂ := hk₁.trans (Kept.of_frame hk₁.alive h₂ rfl rfl)
    exact acceptJob_spec hk₂.alive (h₂.failed.trans hf₁) ((hk₂.during _).trans hs)
      (by rw [h₂.state]; exact hi₁) rfl rfl
  apply Spec.check
  intro _
  apply idle_bind_spec
  intro hf hi
  dsimp only
  split
  · apply Spec.seq ⟨storageStatus_within _ w, fun _ _ h => storageStatus_ret h⟩
    rintro ⟨f, r⟩ w₁ h₁
    apply Spec.check
    intro _
    exact last w₁ (Kept.of_frame ha h₁ rfl rfl) (h₁.failed.trans hf) (by rw [h₁.state]; exact hi)
  · exact last w (Kept.refl ha) hf hi

/-! ### Calls for a job that raise -/

theorem require_unchanged (b : Bool) (e : Error) (w : World) :
    ((require b e : Prog Unit) w).2 = w := by
  cases b <;> rfl

theorem idle_unchanged (w : World) : (idle w).2 = w := by
  rw [idle, gets_bind]
  by_cases hf : (!w.failed) = true
  · rw [bind_of_ret (require_of_true hf), gets_bind]
    exact require_unchanged _ _ w
  · rw [bind_of_raise (require_of_false (by simpa using hf))]

theorem readClock_no_raise {e : Error} : readClock w ≠ (.raise e, w') := by
  intro h
  obtain ⟨c, w₁, w₂, _, hop, _⟩ := effect_raise h
  simp at hop

theorem acceptJob_raise {job : Job} {reset : Bool} {actor requestId : Bytes} {e : Error}
    (h : acceptJob job reset actor requestId w = (.raise e, w')) : w'.failed = true := by
  obtain ⟨_, w₁, h₁, h⟩ | h := bind_raise (m := persist) h
  · obtain ⟨t, w₂, h₂, h⟩ | h := bind_raise (m := readClock) h
    · simp at h
    · exact absurd h readClock_no_raise
  · exact (persist_raise h).2.2

/-- Nothing before the job is created leaves a trace of one. -/
theorem createRaise {m : Bytes → Prog Job} {e : Error}
    (hm : ∀ id w w', m id w = (.raise e, w') → w'.failed = true)
    (h : (randomId >>= m) w = (.raise e, w')) :
    w'.failed = true ∨ createdInCall w'.trace = createdInCall w.trace := by
  obtain ⟨id, w₁, _, h⟩ | h := bind_raise h
  · exact .inl (hm id w₁ w' h)
  · have hf : Frame [] w w' := quiet_raise (answer_quiet _ _) h
    exact .inr hf.trace.createdInCall

theorem power_raised {action : PowerAction} {actor requestId : Bytes} {e : Error}
    (h : power action actor requestId w = (.raise e, w')) :
    w'.failed = true ∨ createdInCall w'.trace = createdInCall w.trace := by
  have hidle := idle_unchanged w
  obtain ⟨_, w₁, h₁, hr⟩ | h₁ := bind_raise (m := idle) h
  · rw [h₁] at hidle
    have hreq := require_unchanged (action == .reboot || action == .shutdown)
      ⟨.invalidArgument, ascii "invalid power action"⟩ w₁
    obtain ⟨_, w₂, h₂, hr⟩ | h₂ := bind_raise hr
    · rw [h₂] at hreq
      have hw : w₂ = w := hreq.trans hidle
      rw [hw] at hr
      exact createRaise (fun _ _ _ h => acceptJob_raise h) hr
    · rw [h₂] at hreq
      have hw : w' = w := hreq.trans hidle
      exact .inr (by rw [hw])
  · rw [h₁] at hidle
    exact .inr (by rw [show w' = w from hidle])

theorem storageStatus_raise {path : Bytes} {e : Error}
    (h : storageStatus path w = (.raise e, w')) : Frame [] w w' := by
  obtain ⟨c, w₁, w₂, hc, hop, rfl⟩ := effect_raise h
  have hw : w₂ = w₁ := by
    split at hop
    · exact (congrArg Prod.snd hop).symm
    · split at hop
      · exact (congrArg Prod.snd hop).symm
      · exact (congrArg Prod.snd hop).symm
      · simp at hop
  exact frame_of_log hc (by rw [hw]; rfl) _

theorem resetDevice_raised {confirmed : Bool} {actor requestId : Bytes} {e : Error}
    (h : resetDevice S confirmed actor requestId w = (.raise e, w')) :
    w'.failed = true ∨ createdInCall w'.trace = createdInCall w.trace := by
  have last : ∀ w₁, createdInCall w₁.trace = createdInCall w.trace →
      (do
        let id ← randomId
        acceptJob ⟨id, .deviceReset, .accepted⟩ true actor requestId : Prog Job) w₁ = (.raise e, w') →
      w'.failed = true ∨ createdInCall w'.trace = createdInCall w.trace := by
    intro w₁ hc hr
    rcases createRaise (fun _ _ _ h => acceptJob_raise h) hr with hf | hs
    · exact .inl hf
    · exact .inr (hs.trans hc)
  have hreq := require_unchanged confirmed
    ⟨.invalidArgument, ascii "whole-device reset requires explicit confirmation"⟩ w
  obtain ⟨_, w₁, h₁, hr⟩ | h₁ := bind_raise h
  · rw [h₁] at hreq
    have hw₁ : w₁ = w := hreq
    rw [hw₁] at hr
    have hidle := idle_unchanged w
    obtain ⟨_, w₂, h₂, hr⟩ | h₂ := bind_raise hr
    · rw [h₂] at hidle
      have hw₂ : w₂ = w := hidle
      rw [hw₂] at hr
      dsimp only at hr
      split at hr
      · obtain ⟨⟨f, r⟩, w₃, h₃, hr⟩ | h₃ := bind_raise hr
        · have hf := storageStatus_ret h₃
          have hc : createdInCall w₃.trace = createdInCall w.trace := hf.trace.createdInCall
          have hreq₃ := require_unchanged f
            ⟨.unavailable, ascii "factory reset requires persistent state and data"⟩ w₃
          obtain ⟨_, w₄, h₄, hr⟩ | h₄ := bind_raise hr
          · rw [h₄] at hreq₃
            have hw₄ : w₄ = w₃ := hreq₃
            rw [hw₄] at hr
            exact last w₃ hc hr
          · rw [h₄] at hreq₃
            have hw' : w' = w₃ := hreq₃
            exact .inr (by rw [hw', hc])
        · exact .inr (storageStatus_raise h₃).trace.createdInCall
      · exact last w rfl hr
    · rw [h₂] at hidle
      exact .inr (by rw [show w' = w from hidle])
  · rw [h₁] at hreq
    exact .inr (by rw [show w' = w from hreq])

/-! ### Calls and runs -/

/-- What a call from `w` has done when it returns in `w'`. -/
def Returned (op : Op) (w w' : World) : Prop :=
  match op with
  | .bootstrap => Branched w w'
  | .start => Started w w'
  | .tick | .networkTransaction => NotDue w'
  | .prepareNetworkCommit _ => Prepared w w'
  | .finishNetwork id commit _ _ => w'.alive = true ∧ Reports id commit w'.state
  | _ => True

theorem call_spec {op : Op} (ha : w.alive = true) (hc : callOf w.trace = some (op, w.failed))
    (hb : op = .bootstrap → booting w.trace = true) (hh : hashRead w.trace = none) :
    Spec S (call S op) w fun _ w' => Returned op w w' := by
  have hd : ∀ p : Op → Bool, during p w.trace = p op := by
    intro p
    unfold during
    rw [hc]
  have hl : op.unguarded = true → w.failed = true → careless w.trace = true := by
    intro hu hf
    unfold careless
    rw [hc, hf]
    exact hu
  have done : ∀ {γ : Type} {m : Prog γ} {f : γ → Reply} {Q : γ → World → Prop}, Spec S m w Q →
      (∀ a w', Q a w' → Returned op w w') →
      Spec S (m >>= fun a => pure (f a)) w fun _ w' => Returned op w w' := by
    intro γ m f Q h hQ
    apply Spec.seq h
    intro a w' ha
    exact Ensures.pure Rel.refl (hQ a w' ha)
  cases op with
  | bootstrap => exact done (bootstrap_spec ha (hb rfl) (hd _) hh (hl rfl)) fun _ _ h => h
  | start => exact done (start_spec ha (hd _) (hl rfl)) fun _ _ h => h
  | tick => exact done (tick_spec ha) fun _ _ h => h.due
  | apply config => exact done (apply_spec ha (hd _)) fun _ _ _ => trivial
  | beginNetwork p actor requestId => exact done (beginNetwork_spec ha (hd _)) fun _ _ _ => trivial
  | networkTransaction => exact done (networkTransaction_spec ha) fun _ _ h => h
  | prepareNetworkCommit id => exact done (prepareNetworkCommit_spec ha (hd _)) fun _ _ h => h
  | finishNetwork id commit actor requestId =>
    exact done (finishNetwork_spec ha (hl rfl)) fun _ _ h => h
  | power action actor requestId => exact done (power_spec ha (hd _)) fun _ _ _ => trivial
  | resetDevice confirmed actor requestId =>
    exact done (resetDevice_spec ha (hd _)) fun _ _ _ => trivial

/-- A call that raises after it created a job has lost the journal write. -/
theorem call_raised {op : Op} {e : Error} (ha : w.alive = true)
    (hc : callOf w.trace = some (op, w.failed)) (hb : op = .bootstrap → booting w.trace = true)
    (hh : hashRead w.trace = none) (hn : createdInCall w.trace = false)
    (h : call S op w = (.raise e, w')) (hcr : createdInCall w'.trace = true) : w'.failed = true := by
  have hw : Rel S w w' := by
    have hr := (call_spec (S := S) ha hc hb hh).within
    unfold Within at hr
    rwa [h] at hr
  by_cases hj : op.requestsJob = true
  · cases op with
    | power action actor requestId =>
      obtain ⟨_, w₁, _, h₂⟩ | h₁ := bind_raise h
      · simp at h₂
      · rcases power_raised h₁ with hf | hs
        · exact hf
        · rw [hs, hn] at hcr
          simp at hcr
    | resetDevice confirmed actor requestId =>
      obtain ⟨_, w₁, _, h₂⟩ | h₁ := bind_raise h
      · simp at h₂
      · rcases resetDevice_raised h₁ with hf | hs
        · exact hf
        · rw [hs, hn] at hcr
          simp at hcr
    | _ => simp [Op.requestsJob] at hj
  · have hd : during Op.requestsJob w.trace = false := by
      unfold during
      rw [hc]
      simpa using hj
    rw [hw.steady.created hd hn] at hcr
    simp at hcr

end Backend

theorem checkpoint_spec (w : World) : Spec S checkpoint w fun _ w' => Frame [] w w' :=
  ⟨quiet_within (fun _ _ => rfl) w, fun _ _ h => quiet_ret (fun _ _ => rfl) h⟩

theorem checkpoint_no_raise {e : Error} : checkpoint w ≠ (.raise e, w') := by
  intro h
  obtain ⟨c, w₁, w₂, _, hop, _⟩ := effect_raise h
  simp at hop

section Perform
variable (op : Op) (script : List Choice)

theorem body_spec (ha : w.alive = true) :
    Spec S (Backend.call S op) (entered op script w) fun _ w' =>
      Backend.Returned op (entered op script w) w' :=
  Backend.call_spec ha rfl (by rintro rfl; rfl) rfl

theorem guarded_spec (ha : w.alive = true) :
    Spec S (guarded S op) (entered op script w) fun _ w' =>
      ∃ w₁, Backend.Returned op (entered op script w) w₁ ∧ Frame [] w₁ w' := by
  apply Spec.seq (body_spec op script ha)
  intro r w₁ h₁
  apply Spec.seq (checkpoint_spec w₁)
  intro _ w₂ h₂
  exact Ensures.pure Rel.refl ⟨w₁, h₁, h₂⟩

theorem booted_of_returned {w₁ : World}
    (h₁ : Backend.Returned op (entered op script w) w₁) (h₂ : Frame [] w₁ w') (ho : op = .bootstrap) :
    Booted w'.toCore := by
  subst ho
  have h : Backend.Branched (entered .bootstrap script w) w₁ := h₁
  refine ⟨h₂.alive.trans h.alive, ?_, ?_, ?_⟩
  · rw [h₂.state]
    exact h.intent
  · intro hf
    have hf₀ : w.failed = true := h.latch (h₂.failed.symm.trans hf)
    have hc : callOf w'.trace = some (.bootstrap, w.failed) := h₂.trace.callOf.trans h.call
    unfold careless
    rw [hc, hf₀]
    rfl
  · intro hi
    rw [h₂.state] at hi ⊢
    rw [h₂.trace.running]
    exact h.network hi

theorem resumed_of_returned {w₁ : World}
    (h₁ : Backend.Returned op (entered op script w) w₁) (h₂ : Frame [] w₁ w') (ho : op = .start) :
    Resumed w'.toCore := by
  subst ho
  have h : Backend.Started (entered .start script w) w₁ := h₁
  refine ⟨h₂.alive.trans h.alive, ?_, ?_, ?_⟩
  · intro hf
    have hf₀ : w.failed = true := h.latch (h₂.failed.symm.trans hf)
    have hc : callOf w'.trace = some (.start, w.failed) := h₂.trace.callOf.trans h.call
    unfold careless
    rw [hc, hf₀]
    rfl
  · rw [h₂.state]
    exact h.initialized
  · rw [h₂.state]
    exact h.closed

theorem guarded_raised {e : Error} (ha : w.alive = true)
    (h : guarded S op (entered op script w) = (.raise e, w')) (hcr : createdInCall w'.trace = true) :
    w'.failed = true := by
  obtain ⟨r, w₁, _, h₂⟩ | h₁ := bind_raise h
  · obtain ⟨_, w₂, _, h₃⟩ | h₃ := bind_raise h₂
    · simp at h₃
    · exact absurd h₃ checkpoint_no_raise
  · exact Backend.call_raised (w := entered op script w) ha rfl (by rintro rfl; rfl) rfl rfl h₁ hcr

theorem perform_path (ha : w.alive = true) :
    Path S w.toCore (perform S op script w).2.toCore := by
  have hg := guarded_spec (S := S) op script ha
  have hcall : Path S w.toCore (entered op script w).toCore := ReflTransGen.single (Move.call op)
  apply ReflTransGen.trans hcall
  unfold perform
  have hw := hg.within
  unfold Within at hw
  rcases h : guarded S op (entered op script w) with ⟨o, w'⟩
  rw [h] at hw
  apply ReflTransGen.tail hw.path
  cases o with
  | ret r =>
    obtain ⟨w₁, h₁, h₂⟩ := hg.post r w' h
    exact Move.returned op (booted_of_returned op script h₁ h₂) (resumed_of_returned op script h₁ h₂)
  | raise e => exact Move.raised op (guarded_raised op script ha h)
  | crash => exact Move.cut

/-- How a call that returned ended: its last move is the return. -/
theorem perform_returned {r : Backend.Reply} (ha : w.alive = true)
    (h : perform S op script w = (.ret r, w')) :
    ∃ w₁ w₂ : World, Path S w.toCore w₁.toCore ∧ w' = w₁.log (.returned op) ∧
      Backend.Returned op (entered op script w) w₂ ∧ Frame [] w₂ w₁ := by
  have hg := guarded_spec (S := S) op script ha
  have hw := hg.within
  unfold perform at h
  unfold Within at hw
  rcases hb : guarded S op (entered op script w) with ⟨o, w₁⟩
  rw [hb] at h hw
  cases o with
  | ret r' =>
    obtain ⟨w₂, h₁, h₂⟩ := hg.post r' w₁ hb
    injection h with _ h
    exact ⟨w₁, w₂, ReflTransGen.head (Move.call op) hw.path, h.symm, h₁, h₂⟩
  | raise e => simp at h
  | crash => simp at h

end Perform

theorem construct_path (w : World) : Path S w.toCore (Backend.construct S w).2.toCore := by
  rw [Backend.construct, effect_apply]
  split
  · exact ReflTransGen.trans (Rel.of_eq (draw_core w)).path (ReflTransGen.single Move.stop)
  · apply ReflTransGen.trans (Rel.of_eq (S := S) (draw_core w)).path
    split
    · exact (authority_path _ _).path
    · have hp := (authority_path (S := S) w.draw.1.writes { w.draw.2 with
        alive := true
        state := Backend.loaded S.profile w.draw.2.journal
        failed := false
        jobDeadline := 0
        nextObservation := 0
        carriers := []
        trace := .constructed :: w.draw.2.trace }).path
      exact ReflTransGen.head Move.construct hp

theorem step_path (S : Site) (w : World) (e : Event) : Path S w.toCore (step S w e).toCore := by
  cases e with
  | restart script =>
    apply ReflTransGen.trans (ReflTransGen.single (Move.stop (S := S) (c := w.toCore)))
    exact construct_path { w with alive := false, script := script }
  | call op script =>
    by_cases ha : w.alive = true
    · simp only [step, if_pos ha]
      exact perform_path op script ha
    · simp only [step, if_neg ha]
      exact ReflTransGen.refl
  | crash => exact ReflTransGen.single Move.cut
  | write content => exact ReflTransGen.single (Move.write content)
  | status file => exact ReflTransGen.refl

/-- Every run of the manager is a path of moves. -/
theorem run_path (S : Site) (w : World) (es : List Event) : Path S w.toCore (run S w es).toCore := by
  induction es generalizing w with
  | nil => exact ReflTransGen.refl
  | cons e es ih => exact ReflTransGen.trans (step_path S w e) (ih (step S w e))

end Monutchee.System
