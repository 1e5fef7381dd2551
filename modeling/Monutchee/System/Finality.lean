import Monutchee.System.Sync

/-!
# Settled outcomes are final

A reply of finishNetwork can be lost, so the caller repeats the call, possibly on another
process. The settled record answers it until the journal gets another transaction or loses
the record to a device reset. A reset bootstrap drops the transaction from memory before it
writes the journal; if it stops in between, only the journal still reports the outcome.
-/

namespace Monutchee.System
open Lib Lib.Act Relation
open Backend (Reports)

variable {S : Site} {c c' : Core} {s d : State} {marks t : List Entry} {id : Bytes} {commit : Bool}

def Entry.isLost : Entry → Bool
  | .journalFailed _ _ _ => true
  | _ => false

/-- A journal write that begins another transaction or leaves none, and the removal of the
journal. -/
def Entry.replaces (S : Site) : Entry → Bool
  | .journal _ new =>
    new.pending.transaction.state == .pending || new.pending.transaction.state == .idle
  | .removed p => inside p S.journalPath
  | _ => false

/-- The entries of a history that are newer than another one. -/
def newer (t t' : List Entry) : List Entry := t'.take (t'.length - t.length)

theorem newer_append (es t : List Entry) : newer t (es ++ t) = es := by
  simp [newer]

/-- A reset bootstrap of the live object has dropped the transaction from memory. -/
def dropped (t : List Entry) : Bool :=
  (t.findSome? fun
    | .cleared => some true
    | .constructed | .begun _ _ _ => some false
    | _ => none).getD false

/-! ### The latch and the history -/

theorem latch_recorded_saved (hs : Saved c s marks c')
    (h : c.failed = true → ∃ e ∈ c.trace, e.isLost = true) :
    c'.failed = true → ∃ e ∈ c'.trace, e.isLost = true := by
  intro hf
  cases hs with
  | refused hr =>
    obtain ⟨e, he, hl⟩ := h hr
    exact ⟨e, List.mem_append_right _ he, hl⟩
  | cut hr =>
    obtain ⟨e, he, hl⟩ := h hf
    exact ⟨e, List.mem_append_right _ he, hl⟩
  | ok hr =>
    obtain ⟨e, he, hl⟩ := h hf
    exact ⟨e, List.mem_cons_of_mem _ (List.mem_append_right _ he), hl⟩
  | lost left hr => exact ⟨_, List.mem_cons_self .., rfl⟩

/-- The latch is set only by a failed journal write. -/
theorem latch_recorded (hm : Move S c c') (h : c.failed = true → ∃ e ∈ c.trace, e.isLost = true) :
    c'.failed = true → ∃ e ∈ c'.trace, e.isLost = true := by
  obtain ⟨es, ht⟩ := hm.grows
  have hkeep : c.failed = true → ∃ e ∈ c'.trace, e.isLost = true := by
    intro hf
    obtain ⟨e, he, hl⟩ := h hf
    exact ⟨e, by rw [ht]; exact List.mem_append_right _ he, hl⟩
  cases hm with
  | dispatch _ _ hs => exact latch_recorded_saved hs h
  | save _ _ hs => exact latch_recorded_saved hs h
  | construct => exact fun hf => by simp at hf
  | _ => exact hkeep

/-! ### The record through one move -/

theorem Backend.Reports.settled (h : Reports id commit s) :
    s.pending.transaction.state ≠ .pending ∧ s.isOpen = false := by
  rw [State.isOpen, h.state]
  cases commit <;> simp [TransactionState.isOpen]

theorem Backend.Reports.of_transaction (h : Reports id commit s)
    (ht : d.pending.transaction = s.pending.transaction) : Reports id commit d :=
  ⟨ht ▸ h.id, ht ▸ h.state⟩

/-- A journaled change keeps a settled transaction or begins another one. -/
theorem change_settled (h : Change S c s marks) (hc : c.state.isOpen = false) :
    s.pending.transaction = c.state.pending.transaction ∨
      s.pending.transaction.state = .pending := by
  cases h with
  | begin p id actor requestId t _ _ _ _ _ _ _ => exact .inr rfl
  | prepare time _ _ hp _ _ _ =>
    rw [State.isOpen, hp] at hc
    simp [TransactionState.isOpen] at hc
  | settle commit ho _ _ _ =>
    rw [hc] at ho
    simp at ho
  | _ => exact .inl rfl

/-- What memory holds while the journal keeps the record. -/
def Held (id : Bytes) (commit : Bool) (c : Core) : Prop :=
  Reports id commit c.state ∨ c.state.pending.transaction.state = .idle ∧ dropped c.trace = true

theorem Held.of_transaction (h : Held id commit c)
    (ht : c'.state.pending.transaction = c.state.pending.transaction)
    (hd : dropped c'.trace = dropped c.trace) : Held id commit c' := by
  unfold Held
  rw [ht, hd]
  exact h.imp_left fun hr => hr.of_transaction ht

theorem Held.closed (h : Held id commit c) : c.state.isOpen = false := by
  rcases h with h | h
  · exact h.settled.2
  · rw [State.isOpen, h.1]
    rfl

structure Final (t : List Entry) (id : Bytes) (commit : Bool) (c : Core) : Prop where
  newer : ∃ es, c.trace = es ++ t
  sound : c.failed = false
  journal : ∃ d, c.journal = some d ∧ Reports id commit d
  memory : c.alive = true → Held id commit c

/-- No journal write failed, and nothing since `t` replaced the record. -/
structure Undisturbed (S : Site) (t : List Entry) (c : Core) : Prop where
  sound : ∀ e ∈ c.trace, e.isLost = false
  kept : ∀ es, c.trace = es ++ t → ∀ e ∈ es, e.replaces S = false

theorem Undisturbed.back (h : Undisturbed S t c') (hm : Move S c c') : Undisturbed S t c := by
  obtain ⟨fs, ht⟩ := hm.grows
  refine ⟨?_, ?_⟩
  · intro e he
    exact h.sound e (by rw [ht]; exact List.mem_append_right _ he)
  · intro es hes e he
    exact h.kept (fs ++ es) (by rw [ht, hes, List.append_assoc]) e (List.mem_append_right _ he)

/-- An entry that a step has just added is not a failed write and replaces nothing. -/
theorem Undisturbed.head (h : Undisturbed S t c') (e : Entry) (es : List Entry)
    (ht : c'.trace = e :: (es ++ t)) : e.isLost = false ∧ e.replaces S = false := by
  refine ⟨h.sound e (by rw [ht]; exact List.mem_cons_self ..), ?_⟩
  exact h.kept (e :: es) ht e (List.mem_cons_self ..)

/-- A write that is not lost and does not replace the record. -/
theorem final_saved (hs : Saved c s marks c') (hu : Undisturbed S t c') (hi : Final t id commit c)
    (ha : c.alive = true)
    (hp : s.pending.transaction = c.state.pending.transaction ∨
      s.pending.transaction.state = .pending) :
    Final t id commit c' := by
  obtain ⟨es, ht⟩ := hi.newer
  cases hs with
  | refused hf =>
    rw [hi.sound] at hf
    simp at hf
  | cut _ =>
    exact ⟨⟨marks ++ es, by simp [ht]⟩, hi.sound, hi.journal, fun h => by simp at h⟩
  | lost left _ =>
    have hl := (hu.head (.journalFailed c.journal s left) (marks ++ es) (by simp [ht])).1
    simp [Entry.isLost] at hl
  | ok _ =>
    have hr := (hu.head (.journal c.journal s) (marks ++ es) (by simp [ht])).2
    simp only [Entry.replaces, Bool.or_eq_false_iff, beq_eq_false_iff_ne] at hr
    have hrep : Reports id commit s := by
      rcases hp with hp | hp
      · rcases hi.memory ha with hm | hm
        · exact hm.of_transaction hp
        · exact absurd (by rw [hp]; exact hm.1) hr.2
      · exact absurd hp hr.1
    exact ⟨⟨.journal c.journal s :: (marks ++ es), by simp [ht]⟩, hi.sound, ⟨s, rfl, hrep⟩, fun _ => .inl hrep⟩

/-- A step that leaves memory, latch and journal alone. -/
theorem Final.frame (hi : Final t id commit c) (hg : ∃ es, c'.trace = es ++ c.trace)
    (ha : c'.alive = true → c.alive = true) (hs : c'.state = c.state) (hf : c'.failed = c.failed)
    (hj : c'.journal = c.journal) (hd : dropped c'.trace = dropped c.trace) :
    Final t id commit c' := by
  obtain ⟨fs, hfs⟩ := hg
  obtain ⟨es, ht⟩ := hi.newer
  refine ⟨⟨fs ++ es, by rw [hfs, ht, List.append_assoc]⟩, hf.trans hi.sound, ?_, ?_⟩
  · rw [hj]
    exact hi.journal
  · intro h
    exact (hi.memory (ha h)).of_transaction (by rw [hs]) hd

theorem Final.move (hi : Final t id commit c) (hm : Move S c c') (hu : Undisturbed S t c') :
    Final t id commit c' := by
  obtain ⟨es, ht⟩ := hi.newer
  have hg := hm.grows
  cases hm with
  | dispatch ha _ hs =>
    exact final_saved hs hu ⟨⟨es, ht⟩, hi.sound, hi.journal, hi.memory⟩ ha (.inl rfl)
  | save ha hc hs => exact final_saved hs hu hi ha (change_settled hc (hi.memory ha).closed)
  | @loose s marks ha hl =>
    refine ⟨⟨marks ++ es, by simp [ht]⟩, hi.sound, hi.journal, ?_⟩
    intro _
    cases hl with
    | wipe _ _ => exact .inr ⟨rfl, rfl⟩
    | _ => exact (hi.memory ha).of_transaction rfl rfl
  | construct =>
    obtain ⟨d, hj, hr⟩ := hi.journal
    refine ⟨⟨_ :: es, by simp [ht]; rfl⟩, rfl, ⟨d, hj, hr⟩, ?_⟩
    intro _
    refine .inl (hr.of_transaction ?_)
    change (Backend.loaded S.profile c.journal).pending.transaction = _
    rw [loaded_pending, hj]
    rfl
  | remove p _ _ _ _ =>
    have hr := (hu.head (.removed p) es (by simp [ht])).2
    simp only [Entry.replaces] at hr
    refine hi.frame hg (fun h => h) rfl rfl ?_ rfl
    dsimp only
    rw [hr]
    rfl
  | note e he =>
    refine hi.frame hg (fun h => h) rfl rfl rfl ?_
    cases e <;> first | rfl | simp [Entry.inert] at he
  | network n bootstrap ok _ _ =>
    refine hi.frame hg (fun h => h) rfl rfl rfl ?_
    cases ok <;> rfl
  | cut => exact hi.frame hg (fun h => by simp at h) rfl rfl rfl rfl
  | stop => exact hi.frame hg (fun h => by simp at h) rfl rfl rfl rfl
  | _ => exact hi.frame hg (fun h => h) rfl rfl rfl rfl

/-! ### Calls on a closed transaction -/

namespace Backend
variable {w w' : World} {actor requestId : Bytes}

/-- The error of checkId. -/
def stale : Error := ⟨.invalidArgument, ascii "network transaction is no longer pending"⟩

theorem finishNetwork_repeated (h : Reports id commit w.state) :
    finishNetwork S id commit actor requestId w = (.ret (), w) := by
  have hc : (id == w.state.pending.transaction.id && w.state.pending.transaction.state ==
      (if commit then .committed else .rolledBack)) = true := by
    rw [h.id, h.state]
    simp
  unfold finishNetwork
  rw [gets_bind, if_pos hc]
  rfl

theorem checkId_refused (ho : w.state.isOpen = false) : checkId id w = (.raise stale, w) := by
  unfold checkId
  rw [gets_bind, ho]
  exact require_of_false rfl

/-- What finishNetwork does with a transaction that it has not settled this way. -/
theorem finishNetwork_unsettled (hn : ¬ Reports id commit w.state) :
    finishNetwork S id commit actor requestId w = (checkId id >>= fun _ => do
      checkFinish S commit
      setState (·.relabel actor requestId)
      settleNetwork commit false .cancel) w := by
  have hc : ¬ (id == w.state.pending.transaction.id && w.state.pending.transaction.state ==
      (if commit then .committed else .rolledBack)) = true := by
    intro h
    rw [Bool.and_eq_true, beq_iff_eq, beq_iff_eq] at h
    exact hn ⟨h.1.symm, h.2⟩
  unfold finishNetwork
  rw [gets_bind, if_neg hc]

theorem finishNetwork_refused (ho : w.state.isOpen = false) (hn : ¬ Reports id commit w.state) :
    finishNetwork S id commit actor requestId w = (.raise stale, w) := by
  rw [finishNetwork_unsettled hn]
  exact bind_of_raise (checkId_refused ho)

/-! ### The tick before prepareNetworkCommit -/

/-- Configuration and transaction are as before. -/
def Keeps (w w' : World) : Prop :=
  w'.state.configuration = w.state.configuration ∧ w'.state.pending = w.state.pending

theorem Keeps.refl (w : World) : Keeps w w := ⟨rfl, rfl⟩

theorem Keeps.trans (a b c : World) (h : Keeps a b) (h' : Keeps b c) : Keeps a c :=
  ⟨h'.1.trans h.1, h'.2.trans h.2⟩

theorem Keeps.of_state (h : w'.state = w.state) : Keeps w w' := by
  rw [Keeps, h]
  exact ⟨rfl, rfl⟩

theorem Keeps.bind {α β : Type} {m : Prog α} {f : α → Prog β} (hm : Within Keeps m w)
    (hf : ∀ a w', Keeps w w' → Within Keeps (f a) w') : Within Keeps (m >>= f) w := by
  apply Within.bind Keeps.trans hm
  intro a w' h
  apply hf a w'
  unfold Within at hm
  rw [h] at hm
  exact hm

theorem Keeps.assign {f : World → World} (h : Keeps w (f w)) : Within Keeps (modify f : Prog Unit) w :=
  h

/-- No effect writes to the members of the object. -/
theorem effect_keeps {α : Type} {op : Choice → World → Outcome Error α × World}
    (h : ∀ c w, (op c w).2.state = w.state) (w : World) : Within Keeps (effect op) w := by
  have hd : w.draw.2.state = w.state := congrArg Core.state (draw_core w)
  unfold Within
  rw [effect_apply]
  split
  · exact Keeps.of_state hd
  · apply Keeps.of_state
    rw [(authority_frame _ _).state, h, hd]

theorem readClock_keeps (w : World) : Within Keeps readClock w := effect_keeps (fun _ _ => rfl) w

theorem persist_keeps (w : World) : Within Keeps persist w := by
  unfold persist
  apply Keeps.bind (Within.gets Keeps.refl _ w)
  intro failed w₁ _
  apply Keeps.bind (Within.require Keeps.refl _ _ _)
  intro _ w₂ _
  apply Within.attempt Keeps.trans
  · apply effect_keeps
    intro c w
    split
    · rfl
    · rfl
  · intro e w₃ _
    exact Keeps.bind (Keeps.assign (Keeps.refl w₃)) fun _ w₄ _ => Keeps.refl w₄

theorem setJob_keeps (state : JobState) (marks : List Entry) (w : World) :
    Within Keeps (setState (·.setJob state) marks) w := ⟨rfl, rfl⟩

theorem dispatchPower_keeps (w : World) : Within Keeps dispatchPower w := by
  unfold dispatchPower
  apply Keeps.bind (Within.gets Keeps.refl _ w)
  intro s w₁ _
  apply Within.attempt Keeps.trans
  · apply Keeps.bind
    · apply effect_keeps
      intro c w
      dsimp only
      split
      · rfl
      · rfl
    · intro _ w₂ _
      exact Keeps.refl w₂
  · intro e w₂ _
    apply Keeps.bind (setJob_keeps _ _ w₂)
    intro _ w₃ _
    apply Keeps.bind (persist_keeps w₃)
    intro _ w₄ _
    exact Keeps.bind (Keeps.assign (Keeps.refl w₄)) fun _ w₅ _ => Keeps.refl w₅

theorem tickDispatch_keeps (w : World) : Within Keeps tickDispatch w := by
  unfold tickDispatch
  apply Keeps.bind (Within.gets Keeps.refl _ w)
  intro deadline w₁ _
  split
  · apply Keeps.bind (readClock_keeps w₁)
    intro t w₂ _
    split
    · unfold dispatch
      apply Keeps.bind (Keeps.assign (Keeps.refl w₂))
      intro _ w₃ _
      apply Keeps.bind (setJob_keeps _ _ w₃)
      intro _ w₄ _
      exact Keeps.bind (persist_keeps w₄) fun _ w₅ _ => dispatchPower_keeps w₅
    · exact Keeps.refl w₂
  · exact Keeps.refl w₁

theorem observeNetwork_keeps (w : World) : Within Keeps (observeNetwork S) w := by
  unfold observeNetwork
  apply Within.attempt Keeps.trans
  · apply Keeps.bind
    · exact effect_keeps (fun c w => congrArg (fun w : World => w.state) (answer_quiet _ _ c w)) w
    · intro links w₁ _
      apply Keeps.bind (Keeps.assign (Keeps.refl w₁))
      intro _ w₂ _
      obtain ⟨w₃, h₃, hc⟩ := observeLinks_ret (S := S) links w₂
      unfold Within
      rw [h₃]
      exact Keeps.of_state (congrArg Core.state hc)
  · intro e w₁ _
    exact Keeps.refl w₁

theorem tickObserve_keeps (w : World) : Within Keeps (tickObserve S) w := by
  unfold tickObserve
  apply Keeps.bind (readClock_keeps w)
  intro t w₁ _
  apply Keeps.bind (Within.gets Keeps.refl _ w₁)
  intro next w₂ _
  split
  · apply Keeps.bind (readClock_keeps w₂)
    intro t w₃ _
    refine Keeps.bind (Keeps.assign ⟨rfl, rfl⟩) ?_
    intro _ w₄ _
    exact observeNetwork_keeps w₄
  · exact Keeps.refl w₂

/-- Without an open transaction a tick changes no more than the job. -/
theorem tick_keeps (ho : w.state.isOpen = false) : Within Keeps (tick S) w := by
  unfold tick
  apply Keeps.bind (Within.gets Keeps.refl _ w)
  intro failed w₁ h₁
  apply Keeps.bind (Within.require Keeps.refl _ _ w₁)
  intro _ w₂ h₂
  apply Keeps.bind (tickObserve_keeps w₂)
  intro _ w₃ h₃
  have hp : w₃.state.pending = w.state.pending := h₃.2.trans (h₂.2.trans h₁.2)
  apply Keeps.bind
  · have hc : w₃.state.isOpen = false := by
      rw [State.isOpen, hp]
      exact ho
    unfold Within tickExpire
    rw [gets_bind, hc]
    exact Keeps.refl w₃
  · intro _ w₄ _
    exact tickDispatch_keeps w₄

theorem prepareNetworkCommit_refused (ho : w.state.isOpen = false) :
    prepareNetworkCommit S id w = (tick S >>= fun _ => raise stale) w := by
  unfold prepareNetworkCommit
  rw [bind_apply, bind_apply]
  rcases h : tick S w with ⟨o, w₁⟩
  cases o with
  | ret u =>
    have hk := tick_keeps (S := S) ho
    unfold Within at hk
    rw [h] at hk
    have ho₁ : w₁.state.isOpen = false := by
      rw [State.isOpen, hk.2]
      exact ho
    exact bind_of_raise (checkId_refused ho₁)
  | raise e => rfl
  | crash => rfl

theorem networkTransaction_reports {r : NetworkTransaction} (hr : Reports id commit w.state)
    (h : networkTransaction S w = (.ret r, w')) :
    r.id = id ∧ r.state = if commit then .committed else .rolledBack := by
  unfold networkTransaction at h
  obtain ⟨_, w₁, h₁, h⟩ := bind_ret h
  have hk := tick_keeps (S := S) hr.settled.2
  unfold Within at hk
  rw [h₁] at hk
  rw [gets_bind] at h
  obtain ⟨ms, w₂, _, h⟩ := bind_ret h
  injection h with h _
  injection h with h
  rw [← h, hk.2]
  exact ⟨hr.id, hr.state⟩

end Backend

/-! ### Whole runs -/

/-- How a live Backend answers about a settled transaction. The calls are given by what they
do to the world in which their body begins: the first two leave it as it is, effects and
choices of the environment included. -/
structure Answers (S : Site) (id : Bytes) (commit : Bool) (w : World) : Prop where
  repeated : ∀ actor requestId script,
    let v := entered (.finishNetwork id commit actor requestId) script w
    Backend.call S (.finishNetwork id commit actor requestId) v = (.ret .done, v)
  refused : ∀ id' commit' actor requestId script, id' ≠ id ∨ commit' ≠ commit →
    let v := entered (.finishNetwork id' commit' actor requestId) script w
    Backend.call S (.finishNetwork id' commit' actor requestId) v = (.raise Backend.stale, v)
  prepare : ∀ id' script,
    let v := entered (.prepareNetworkCommit id') script w
    Backend.call S (.prepareNetworkCommit id') v =
        (Backend.tick S >>= fun _ => raise Backend.stale) v ∧
      Backend.Keeps v (Backend.tick S v).2
  status : ∀ script r w',
    Backend.call S .networkTransaction (entered .networkTransaction script w) =
      (.ret (.transaction r), w') →
    r.id = id ∧ r.state = if commit then .committed else .rolledBack

theorem answers_of_reports {w : World} (h : Reports id commit w.state) : Answers S id commit w := by
  have hv : ∀ op script, Reports id commit (entered op script w).state := fun _ _ => h
  refine ⟨?_, ?_, ?_, ?_⟩
  · intro actor requestId script
    exact bind_of_ret (Backend.finishNetwork_repeated h)
  · intro id' commit' actor requestId script hne
    apply bind_of_raise
    apply Backend.finishNetwork_refused (hv _ _).settled.2
    rintro ⟨hid, hst⟩
    rcases hne with hne | hne
    · exact hne (hid.symm.trans h.id)
    · have hc := hst.symm.trans h.state
      cases commit <;> cases commit' <;> simp at hne hc
  · intro id' script
    have ho := (hv (.prepareNetworkCommit id') script).settled.2
    refine ⟨?_, Backend.tick_keeps ho⟩
    have hp : Backend.prepareNetworkCommit S id' _ = _ := Backend.prepareNetworkCommit_refused ho
    change (Backend.prepareNetworkCommit S id' >>= fun _ => pure Backend.Reply.done) _ = _
    rw [bind_apply, hp, bind_apply, bind_apply]
    rcases Backend.tick S _ with ⟨o, w₁⟩
    cases o <;> rfl
  · intro script r w' hcall
    obtain ⟨r', w₁, h₁, h₂⟩ := bind_ret hcall
    injection h₂ with h₂ _
    injection h₂ with h₂
    injection h₂ with h₂
    subst h₂
    exact Backend.networkTransaction_reports (hv _ _) h₁

/-- The state in which finishNetwork has returned. -/
theorem final_of_finished {w w' : World} {actor requestId : Bytes} {script : List Choice}
    {r : Backend.Reply} (ha : w.alive = true) (hi : Invariant w'.toCore)
    (hf : w'.failed = false) (hj : w'.journal ≠ none)
    (h : perform S (.finishNetwork id commit actor requestId) script w = (.ret r, w')) :
    Final w'.trace id commit w'.toCore := by
  obtain ⟨w₁, w₂, _, rfl, hret, hfr⟩ := perform_returned _ _ ha h
  obtain ⟨ha₂, hr₂⟩ : w₂.alive = true ∧ Reports id commit w₂.state := hret
  have hr : Reports id commit (w₁.log (.returned (.finishNetwork id commit actor requestId))).state := by
    change Reports id commit w₁.state
    rw [hfr.state]
    exact hr₂
  refine ⟨⟨[], rfl⟩, hf, ?_, fun _ => .inl hr⟩
  obtain ⟨d, hd⟩ := Option.ne_none_iff_exists'.mp hj
  have hne : w₁.state.pending.transaction.state ≠ .idle := by
    rw [show w₁.state.pending.transaction.state = _ from hr.state]
    cases commit <;> simp
  have hbody := ((hi.sync (hfr.alive.trans ha₂) hf).present d hd).pending (.inr hne)
  exact ⟨d, hd, hr.of_transaction (transaction_of_body hbody)⟩

/-- Once finishNetwork has returned, the outcome stands in the journal until another
transaction or a device reset replaces the record; a live Backend reports it and answers by
it unless its own reset bootstrap has dropped it. -/
theorem settled_outcome_final (S : Site) (settings : Option Bytes) (tree : List Bytes)
    (status : StatusFile) (es later : List Event) (id actor requestId : Bytes) (commit : Bool)
    (script : List Choice) (r : Backend.Reply) :
    let w₀ := run S (fresh settings tree status) es
    let op := Op.finishNetwork id commit actor requestId
    let w₁ := (perform S op script w₀).2
    let w := run S w₁ later
    w₀.alive = true → (perform S op script w₀).1 = .ret r → w₁.journal ≠ none →
    (∀ e ∈ w.trace, e.isLost = false) → (∀ e ∈ newer w₁.trace w.trace, e.replaces S = false) →
    (∃ d, w.journal = some d ∧ Reports id commit d) ∧
      (w.alive = true → dropped w.trace = false →
        Reports id commit w.state ∧ Answers S id commit w) := by
  intro w₀ op w₁ w ha hret hj hlost hnew
  have hperform : perform S op script w₀ = (.ret r, w₁) := Prod.ext hret rfl
  have hpath : Path S w₁.toCore w.toCore := run_path S w₁ later
  have hpath₁ : Path S (fresh settings tree status).toCore w₁.toCore :=
    ReflTransGen.trans (run_path S _ es) (perform_path _ _ ha)
  have hu : Undisturbed S w₁.trace w.toCore := by
    refine ⟨hlost, ?_⟩
    intro es hes e he
    apply hnew e
    rw [show w.trace = _ from hes, newer_append]
    exact he
  have hf : w₁.failed = false := by
    have hu₁ := path_back (H := Undisturbed S w₁.trace) (fun _ _ hm h => h.back hm) hpath hu
    have hrec := path_keeps (I := fun c => c.failed = true → ∃ e ∈ c.trace, e.isLost = true)
      (fun _ _ hm => latch_recorded hm) hpath₁ (fun hf => by simp [fresh] at hf)
    by_contra hn
    obtain ⟨e, he, hl⟩ := hrec (by simpa using hn)
    rw [hu₁.sound e he] at hl
    simp at hl
  have hi : Invariant w₁.toCore :=
    path_keeps (fun _ _ hm => Invariant.move hm) hpath₁ (Invariant.fresh settings tree status)
  have hfinal := path_keeps_while (H := Undisturbed S w₁.trace) (I := Final w₁.trace id commit)
    (fun _ _ hm h => h.back hm) (fun _ _ hm hu h => h.move hm hu) hpath hu
    (final_of_finished ha hi hf hj hperform)
  refine ⟨hfinal.journal, ?_⟩
  intro hal hd
  rcases hfinal.memory hal with h | h
  · exact ⟨h, answers_of_reports h⟩
  · rw [hd] at h
    simp at h

/-- The candidate settings are in place and the commit is prepared. -/
def Fixture.prepared : World := run site device (started ++ [begin, prepare, .write candidate])

def Fixture.confirm : Op := .finishNetwork Fixture.id true (ascii "web") []

def Fixture.confirmed : World := (perform site confirm [] prepared).2

/-- The settings change again, and another process takes over. -/
def Fixture.restarted : List Event :=
  [.write previous, .restart [], .call .bootstrap [], .call .start [], .call .tick []]

theorem settled_outcome_final_restarted :
    let w := run Fixture.site Fixture.confirmed Fixture.restarted
    (∃ d, w.journal = some d ∧ Reports Fixture.id true d) ∧ Reports Fixture.id true w.state ∧
      Answers Fixture.site Fixture.id true w := by
  have h := settled_outcome_final Fixture.site (some Fixture.previous) [] .missing
    (Fixture.started ++ [Fixture.begin, Fixture.prepare, .write Fixture.candidate])
    Fixture.restarted Fixture.id (ascii "web") [] true [] .done (by decide)
    (by decide) (by decide) (by decide) (by decide)
  exact ⟨h.1, h.2 (by decide) (by decide)⟩

/-- A device reset whose bootstrap drops the transaction and is then refused by the platform. -/
def Fixture.droppedByReset : List Event :=
  [.call (.resetDevice true (ascii "web") []) [{ id := Fixture.id }], .restart [],
    .call .bootstrap [{}, { fails := true }]]

theorem settled_outcome_dropped :
    let w := run Fixture.site Fixture.confirmed Fixture.droppedByReset
    (perform Fixture.site Fixture.confirm [] Fixture.prepared).1 = .ret .done ∧
      (∀ e ∈ w.trace, e.isLost = false) ∧
      (∀ e ∈ newer Fixture.confirmed.trace w.trace, e.replaces Fixture.site = false) ∧
      (∃ d, w.journal = some d ∧ d.pending.transaction.id = Fixture.id ∧
        d.pending.transaction.state = .committed) ∧
      w.alive = true ∧ w.state.pending.transaction.state = .idle ∧
      (perform Fixture.site Fixture.confirm [] w).1 = .raise Backend.stale := by
  refine ⟨?_, ?_, ?_, ?_, ?_, ?_, ?_⟩
  · decide
  · decide
  · decide
  · exact Fixture.journal_of_any (by decide)
  · decide
  · decide
  · decide

end Monutchee.System
