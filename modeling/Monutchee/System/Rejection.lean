import Monutchee.System.Checks
import Monutchee.System.Latch

/-!
# Rejected operations

Each of the six operations that change the device first checks, then assigns, and then
writes the journal. As long as the latch is down, whatever raises before the write has
left the members and the journal alone; finishNetwork may have put its caller's labels on
the transaction. finishNetwork does not test the latch: behind it the platform is asked,
the transaction settled in memory, and persist() then refuses.
-/

namespace Monutchee.System
open Lib Lib.Act Relation

variable {S : Site} {w₀ w w' : World} {α β : Type} {id actor requestId : Bytes} {commit : Bool}

/-- The journal was written, or a write of it failed. -/
def Entry.isSave : Entry → Bool
  | .journal _ _ | .journalFailed _ _ _ => true
  | _ => false

/-- The platform refused a network. -/
def Entry.refuses : Entry → Bool
  | .networkFailed _ _ => true
  | _ => false

/-- What a rejected operation leaves as it was. -/
structure Unchanged (w w' : World) : Prop where
  configuration : w'.state.configuration = w.state.configuration
  transaction : w'.state.pending.transaction = w.state.pending.transaction
  previous : w'.state.pending.previous = w.state.pending.previous
  previousHash : w'.state.pending.previousHash = w.state.pending.previousHash
  candidateHash : w'.state.pending.candidateHash = w.state.pending.candidateHash
  deadline : w'.state.pending.deadline = w.state.pending.deadline
  job : w'.state.job = w.state.job
  resetIntent : w'.state.resetIntent = w.state.resetIntent
  initialized : w'.state.initialized = w.state.initialized
  journal : w'.journal = w.journal

abbrev Grows : World → World → Prop := Adds fun _ => true

theorem grows_lenient : Lenient Grows := adds_lenient (fun _ _ => rfl) fun _ _ => rfl

/-- The members, the latch and the journal are as before, up to the labels of the transaction. -/
structure Spared (w w' : World) : Prop where
  state : w'.state = w.state
  failed : w'.failed = w.failed
  journal : w'.journal = w.journal
  grown : Grows w w'

theorem spared_lenient : Lenient Spared where
  refl w := ⟨rfl, rfl, rfl, Adds.refl w⟩
  trans a b c h h' := ⟨h'.state.trans h.state, h'.failed.trans h.failed, h'.journal.trans h.journal,
    Adds.trans a b c h.grown h'.grown⟩
  draw _ _ := ⟨rfl, rfl, rfl, [], rfl, by simp⟩
  stop _ := ⟨rfl, rfl, rfl, [], rfl, by simp⟩
  write _ _ := ⟨rfl, rfl, rfl, [_], rfl, by simp⟩
  log w e _ := ⟨rfl, rfl, rfl, Adds.log w rfl⟩

theorem platformCall_spared (entry : Bool → Entry) (w : World) : Within Spared (platformCall entry) w :=
  spared_lenient.platformCall entry (fun _ w => ⟨rfl, rfl, rfl, Adds.log w rfl⟩) w

theorem Spared.unchanged (h : Spared w w') : Unchanged w w' := by
  obtain ⟨hs, -, hj, -⟩ := h
  exact ⟨by rw [hs], by rw [hs], by rw [hs], by rw [hs], by rw [hs], by rw [hs], by rw [hs],
    by rw [hs], by rw [hs], hj⟩

/-! ### Programs that raise -/

/-- Somewhere on the way the journal was written. -/
def Wrote (w w' : World) : Prop :=
  ∃ es, w'.trace = es ++ w.trace ∧ ∃ e ∈ es, e.isSave = true

theorem Wrote.grow (h : Wrote w₀ w) (hg : Grows w w') : Wrote w₀ w' := by
  obtain ⟨es, ht, e, he, hs⟩ := h
  obtain ⟨fs, hu, -⟩ := hg
  exact ⟨fs ++ es, by rw [hu, ht, List.append_assoc], e, List.mem_append_right fs he, hs⟩

theorem Wrote.after (hg : Grows w₀ w) (h : Wrote w w') : Wrote w₀ w' := by
  obtain ⟨es, ht, e, he, hs⟩ := h
  obtain ⟨fs, hu, -⟩ := hg
  exact ⟨es ++ fs, by rw [ht, hu, List.append_assoc], e, List.mem_append_left fs he, hs⟩

/-- If the program raises, then nothing has changed since `w₀` or the journal was written. -/
def Rejects (w₀ : World) (m : Prog α) (w : World) : Prop :=
  ∀ e w', m w = (.raise e, w') → Spared w₀ w' ∨ Wrote w₀ w'

theorem Rejects.pure (a : α) : Rejects w₀ (Pure.pure a : Prog α) w := by
  intro e w' h
  simp at h

theorem Rejects.check {m : Prog α} {f : α → Prog β} (hw : Spared w₀ w) (hm : Within Spared m w)
    (hf : ∀ a w', Spared w₀ w' → m w = (.ret a, w') → Rejects w₀ (f a) w') :
    Rejects w₀ (m >>= f) w := by
  intro e w' h
  rcases bind_raise h with ⟨a, w₁, h₁, h₂⟩ | h₁
  · exact hf a w₁ (spared_lenient.trans _ _ _ hw (hm.result h₁)) h₁ e w' h₂
  · exact .inl (spared_lenient.trans _ _ _ hw (hm.result h₁))

namespace Backend

theorem persist_adds {p : Entry → Bool} (hc : ∀ e, e.checks = true → p e = true)
    (hv : ∀ v d, p (.written v d) = true) (hp : ∀ e, e.isSave = true → p e = true) (w : World) :
    Within (Adds p) persist w := by
  have hR := adds_lenient hc hv
  unfold persist
  apply Within.bind hR.trans (Within.gets hR.refl _ w)
  intro failed w₁ _
  apply Within.bind hR.trans (Within.require hR.refl _ _ w₁)
  intro _ w₂ _
  apply Within.attempt hR.trans
  · apply hR.effect
    intro c w
    split
    · exact ⟨[_], rfl, by simpa using hp _ rfl⟩
    · exact ⟨[_], rfl, by simpa using hp _ rfl⟩
  · intro e w₃ _
    exact ⟨[], rfl, by simp⟩

/-- With the latch down persist() writes, one way or the other, unless it is cut off. -/
theorem persist_wrote (hf : w.failed = false) (hn : (persist w).1 ≠ .crash) :
    Wrote w (persist w).2 := by
  have ht : w.draw.2.trace = w.trace := congrArg Core.trace (draw_core w)
  rw [persist_of_sound hf] at hn ⊢
  split
  · rename_i hc
    rw [if_pos hc] at hn
    simp at hn
  · split
    · have hmark : Wrote w { w.draw.2 with
          failed := true
          journal := if w.draw.1.leaves then some w.draw.2.state else w.draw.2.journal
          trace := .journalFailed w.draw.2.journal w.draw.2.state w.draw.1.leaves :: w.draw.2.trace } :=
        ⟨[.journalFailed w.draw.2.journal w.draw.2.state w.draw.1.leaves], by rw [ht]; rfl, by simp [Entry.isSave]⟩
      exact hmark.grow (grows_lenient.authority _ _)
    · have hmark : Wrote w { w.draw.2 with
          journal := some w.draw.2.state
          trace := .journal w.draw.2.journal w.draw.2.state :: w.draw.2.trace } :=
        ⟨[.journal w.draw.2.journal w.draw.2.state], by rw [ht]; rfl, by simp [Entry.isSave]⟩
      exact hmark.grow (grows_lenient.authority _ _)

theorem persist_rejects (hg : Grows w₀ w) (hf : w.failed = false) : Rejects w₀ persist w := by
  intro e w' h
  have hwrote := persist_wrote hf
  rw [h] at hwrote
  exact .inr (Wrote.after hg (hwrote (by simp)))

/-- The write and what follows it. -/
theorem persist_bind_rejects {k : Unit → Prog β} (hg : Grows w₀ w) (hf : w.failed = false)
    (hk : ∀ w', w'.alive = w.alive → Within Grows (k ()) w') : Rejects w₀ (persist >>= k) w := by
  intro e w' h
  rcases bind_raise h with ⟨u, w₁, h₁, h₂⟩ | h₁
  · have hwrote := persist_wrote hf
    rw [h₁] at hwrote
    have hm := (hk w₁ (persist_ret h₁).alive).result h₂
    exact .inr (Wrote.after hg ((hwrote (by simp)).grow hm))
  · exact persist_rejects hg hf e w' h₁

theorem Rejects.assign {f : State → State} {marks : List Entry} {k : Unit → Prog β}
    (h : Rejects w₀ (k ()) { w with state := f w.state, trace := marks ++ w.trace }) :
    Rejects w₀ (setState f marks >>= k) w := h

theorem assigned_grows (s : State) (marks : List Entry) (hw : Grows w₀ w) :
    Grows w₀ { w with state := s, trace := marks ++ w.trace } :=
  Adds.trans _ _ _ hw ⟨marks, rfl, by simp⟩

theorem persist_grows (w : World) : Within Grows persist w :=
  persist_adds (fun _ _ => rfl) (fun _ _ => rfl) (fun _ _ => rfl) w

theorem platformCall_grows (entry : Bool → Entry) (w : World) : Within Grows (platformCall entry) w :=
  grows_lenient.platformCall entry (fun _ w => Adds.log w rfl) w

theorem setState_grows (f : State → State) (marks : List Entry) (w : World) :
    Within Grows (setState f marks) w := ⟨marks, rfl, by simp⟩

theorem event_grows (e : UserEvent) (w : World) : Within Grows (event e) w := ⟨[], rfl, by simp⟩

theorem settleNetwork_grows (commit bootstrap : Bool) (reason : Reason) (w : World) :
    Within Grows (settleNetwork commit bootstrap reason) w := by
  apply Within.bind grows_lenient.trans (Within.gets grows_lenient.refl _ w)
  intro s w₁ _
  apply Within.bind grows_lenient.trans (platformCall_grows _ w₁)
  intro _ w₂ _
  apply Within.bind grows_lenient.trans (setState_grows _ _ w₂)
  intro _ w₃ _
  apply Within.bind grows_lenient.trans (persist_grows w₃)
  intro _ w₄ _
  exact event_grows _ w₄

theorem idle_ret {u : Unit} (h : idle w = (.ret u, w')) : w.failed = false := by
  by_contra hf
  rw [idle_latched (by simpa using hf)] at h
  simp at h

theorem checkProposal_ret {p : NetworkProposal} {u : Unit} (h : checkProposal S p w = (.ret u, w')) :
    w.failed = false := by
  obtain ⟨_, _, h, _⟩ := bind_ret h
  exact idle_ret h

/-! ### Power and reset -/

theorem acceptJob_rejects {job : Job} {reset : Bool} (hw : Spared w₀ w) (hf : w.failed = false) :
    Rejects w₀ (acceptJob job reset actor requestId) w := by
  apply Rejects.assign
  apply persist_bind_rejects (assigned_grows _ _ hw.grown) hf
  intro w₁ _
  apply Within.bind grows_lenient.trans (Within.gets grows_lenient.refl _ w₁)
  intro s w₂ _
  apply Within.bind grows_lenient.trans (event_grows _ w₂)
  intro _ w₃ _
  apply Within.bind grows_lenient.trans (grows_lenient.readClock w₃)
  intro t w₄ _
  exact ⟨[], rfl, by simp⟩

theorem power_rejects {action : PowerAction} (w : World) :
    Rejects w (power action actor requestId) w := by
  apply Rejects.check (spared_lenient.refl w) (spared_lenient.idle w)
  intro _ w₁ hw₁ hidle
  have hf₁ : w₁.failed = false := hw₁.failed.trans (idle_ret hidle)
  apply Rejects.check hw₁ (Within.require spared_lenient.refl _ _ w₁)
  intro _ w₂ hw₂ hreq
  obtain ⟨-, rfl⟩ := require_ret hreq
  apply Rejects.check hw₂ (spared_lenient.randomId w₂)
  intro id w₃ hw₃ hid
  exact acceptJob_rejects hw₃ ((randomId_ret hid).failed.trans hf₁)

theorem resetDevice_rejects {confirmed : Bool} (w : World) :
    Rejects w (resetDevice S confirmed actor requestId) w := by
  have last : ∀ w₁, Spared w w₁ → w.failed = false → Rejects w (do
      let id ← randomId
      acceptJob ⟨id, .deviceReset, .accepted⟩ true actor requestId) w₁ := by
    intro w₁ hw₁ hf
    apply Rejects.check hw₁ (spared_lenient.randomId w₁)
    intro id w₂ hw₂ _
    exact acceptJob_rejects hw₂ (hw₂.failed.trans hf)
  apply Rejects.check (spared_lenient.refl w) (Within.require spared_lenient.refl _ _ w)
  intro _ w₁ hw₁ hreq
  obtain ⟨-, rfl⟩ := require_ret hreq
  apply Rejects.check hw₁ (spared_lenient.idle w₁)
  intro _ w₂ hw₂ hidle
  have hf := idle_ret hidle
  dsimp only
  split
  · apply Rejects.check hw₂ (spared_lenient.storageStatus _ w₂)
    intro status w₃ hw₃ _
    apply Rejects.check hw₃ (Within.require spared_lenient.refl _ _ w₃)
    intro _ w₄ hw₄ _
    exact last w₄ hw₄ hf
  · exact last w₂ hw₂ hf

/-! ### Network transactions -/

theorem beginNetwork_rejects {p : NetworkProposal} (ha : w.alive = true)
    (hs : during Op.serves w.trace = true) :
    Rejects w (beginNetwork S p actor requestId) w := by
  apply Rejects.check (spared_lenient.refl w) (spared_lenient.checkProposal p w)
  intro _ w₁ hw₁ hcheck
  have ha₁ : w₁.alive = true := ((checkProposal_spec ha hs).post _ _ hcheck).alive
  apply Rejects.check hw₁ (spared_lenient.randomId w₁)
  intro id w₂ hw₂ hid
  apply Rejects.check hw₂ (spared_lenient.readClock w₂)
  intro t w₃ hw₃ ht
  apply Rejects.check hw₃ (Within.gets spared_lenient.refl _ w₃)
  intro s w₄ hw₄ hs₄
  have ha₄ : w₄.alive = true := by
    injection hs₄ with _ hs₄
    rw [← hs₄, (readClock_ret ht).alive, (randomId_ret hid).alive, ha₁]
  apply Rejects.assign
  apply persist_bind_rejects (assigned_grows _ _ hw₄.grown)
    (hw₄.failed.trans (checkProposal_ret hcheck))
  intro w₅ ha₅
  have hback : ∀ e w', Within Grows (settleNetwork false false .recovery >>= fun _ =>
      (raise e : Prog Unit)) w' := by
    intro e w'
    apply Within.bind grows_lenient.trans (settleNetwork_grows _ _ _ w')
    intro _ w'' _
    exact grows_lenient.refl w''
  apply Within.bind grows_lenient.trans
  · apply Within.attempt grows_lenient.trans (platformCall_grows _ w₅)
    intro e w₆ _
    exact hback e w₆
  · intro _ w₆ hnet
    have ha₆ : w₆.alive = true := by
      unfold attempt at hnet
      rcases hp : platformNetwork p.network false w₅ with ⟨o, w₇⟩
      rw [hp] at hnet
      cases o with
      | ret u =>
        injection hnet with _ hnet
        rw [← hnet, (network_ret hp).alive, ha₅, ha₄]
      | raise e =>
        obtain ⟨_, w₈, _, hr⟩ := bind_ret hnet
        simp at hr
      | crash => simp at hnet
    apply Within.bind grows_lenient.trans (Within.gets grows_lenient.refl _ w₆)
    intro s w₇ hs₇
    injection hs₇ with _ hs₇
    apply Within.bind grows_lenient.trans (event_grows _ w₇)
    intro _ w₈ hev
    injection hev with _ hev
    obtain ⟨es, hes⟩ := grows_path (networkTransaction_spec (S := S) (w := w₈)
      (by rw [← hev, ← hs₇]; exact ha₆)).within.path
    exact ⟨es, hes, by simp⟩

theorem prepareNetworkCommit_rejects (ha : w.alive = true) :
    Rejects (tick S w).2 (prepareNetworkCommit S id) w := by
  intro e w' h
  rcases bind_raise h with ⟨u, w₁, htick, hrest⟩ | htick
  · have hf₁ : w₁.failed = false := ((tick_spec (S := S) ha).post _ _ htick).sound
    rw [htick]
    refine Rejects.check (spared_lenient.refl w₁) (spared_lenient.checkId id w₁) ?_ e w' hrest
    intro _ w₂ hw₂ _
    apply Rejects.check hw₂ (Within.gets spared_lenient.refl _ w₂)
    intro s w₃ hw₃ _
    split
    · exact Rejects.pure ()
    · apply Rejects.check hw₃ (spared_lenient.fileHash w₃)
      intro v w₄ hw₄ _
      apply Rejects.check hw₄ (Within.require spared_lenient.refl _ _ w₄)
      intro _ w₅ hw₅ _
      apply Rejects.check hw₅ (spared_lenient.readClock w₅)
      intro t w₆ hw₆ _
      apply Rejects.assign
      exact persist_rejects (assigned_grows _ _ hw₆.grown) (hw₆.failed.trans hf₁)
  · rw [htick]
    exact .inl (spared_lenient.refl w')

/-! ### Preferences -/

theorem applyForward_rejects {config : Configuration} (hf : w.failed = false) :
    Rejects w (applyForward config) w := by
  apply Rejects.check (spared_lenient.refl w) (platformCall_spared _ w)
  intro _ w₁ hw₁ _
  apply Rejects.check hw₁ (platformCall_spared _ w₁)
  intro _ w₂ hw₂ _
  apply Rejects.assign
  exact persist_rejects (assigned_grows _ _ hw₂.grown) (hw₂.failed.trans hf)

theorem applyRollback_grows (previous : Configuration) (w : World) :
    Within Grows (applyRollback previous) w := by
  apply Within.bind grows_lenient.trans (setState_grows _ _ w)
  intro _ w₁ _
  apply Within.attempt grows_lenient.trans
  · apply Within.bind grows_lenient.trans (platformCall_grows _ w₁)
    intro _ w₂ _
    apply Within.bind grows_lenient.trans (platformCall_grows _ w₂)
    intro _ w₃ _
    exact persist_grows w₃
  · intro e w₂ _
    exact grows_lenient.refl w₂

/-- With the old configuration still in memory the rollback assigns nothing new; it ends with a
write or before it. -/
theorem applyRollback_rejects (hw : Spared w₀ w) (hf : w.failed = false) (e : Error) :
    Rejects w₀ (applyRollback w₀.state.configuration >>= fun _ => (raise e : Prog Unit)) w := by
  have hsame : Within Spared (setState fun s => { s with configuration := w₀.state.configuration }) w := by
    refine ⟨?_, rfl, rfl, [], rfl, by simp⟩
    rw [← hw.state]
    rfl
  unfold applyRollback
  rw [Act.bind_assoc]
  apply Rejects.check hw hsame
  intro _ w₁ hw₁ hset
  have hf₁ : w₁.failed = false := by
    injection hset with _ hset
    rw [← hset]
    exact hf
  intro e' w' h
  have hwrote : ∀ u w₂, (platformPreferences w₀.state.configuration >>= fun _ =>
      platformSshBootPolicy w₀.state.configuration.system.sshEnabled >>= fun _ => persist) w₁ =
      (.ret u, w₂) → Wrote w₀ w₂ := by
    intro u w₂ h
    obtain ⟨_, w₃, h₃, h⟩ := bind_ret h
    obtain ⟨_, w₄, h₄, h⟩ := bind_ret h
    have hs₃ := (platformCall_spared _ w₁).result h₃
    have hs₄ := (platformCall_spared _ w₃).result h₄
    have hs := spared_lenient.trans _ _ _ hw₁ (spared_lenient.trans _ _ _ hs₃ hs₄)
    have hp := persist_wrote (w := w₄) (by rw [hs₄.failed, hs₃.failed, hf₁])
    rw [h] at hp
    exact Wrote.after hs.grown (hp (by simp))
  have hrej : Rejects w₀ (platformPreferences w₀.state.configuration >>= fun _ =>
      platformSshBootPolicy w₀.state.configuration.system.sshEnabled >>= fun _ => persist) w₁ := by
    apply Rejects.check hw₁ (platformCall_spared _ w₁)
    intro _ w₃ hw₃ h₃
    apply Rejects.check hw₃ (platformCall_spared _ w₃)
    intro _ w₄ hw₄ h₄
    refine persist_rejects hw₄.grown ?_
    rw [(platformCall_ret h₄).failed, (platformCall_ret h₃).failed, hf₁]
  rw [bind_apply] at h
  unfold attempt at h
  rcases hm : (platformPreferences w₀.state.configuration >>= fun _ =>
      platformSshBootPolicy w₀.state.configuration.system.sshEnabled >>= fun _ => persist) w₁ with ⟨o, w₂⟩
  rw [hm] at h
  cases o with
  | ret u =>
    injection h with _ h
    rw [← h]
    exact .inr (hwrote u w₂ hm)
  | raise e₂ =>
    injection h with _ h
    rw [← h]
    exact hrej e₂ w₂ hm
  | crash => simp at h

theorem apply_rejects {config : Configuration} (w : World) : Rejects w (apply S config) w := by
  apply Rejects.check (spared_lenient.refl w) (spared_lenient.idle w)
  intro _ w₁ hw₁ hidle
  have hf := idle_ret hidle
  apply Rejects.check hw₁ (Within.lift spared_lenient.refl _ w₁)
  intro _ w₂ hw₂ _
  apply Rejects.check hw₂ (spared_lenient.checkHostname config w₂)
  intro _ w₃ hw₃ _
  apply Rejects.check hw₃ (spared_lenient.validateConfiguration config w₃)
  intro _ w₄ hw₄ _ e w' h
  rw [gets_bind] at h
  refine Rejects.check hw₄ (Within.require spared_lenient.refl _ _ w₄) ?_ e w' h
  intro _ w₅ hw₅ hreq
  obtain ⟨-, rfl⟩ := require_ret hreq
  intro e w' h
  unfold attempt at h
  rcases hm : applyForward config w₅ with ⟨o, w₆⟩
  rw [hm] at h
  cases o with
  | ret u => simp at h
  | raise e₆ =>
    rw [hw₅.state] at h
    rcases applyForward_rejects (hw₅.failed.trans hf) e₆ w₆ hm with hs | hwr
    · have hw₆ := spared_lenient.trans _ _ _ hw₅ hs
      exact applyRollback_rejects hw₆ (hw₆.failed.trans hf) e₆ e w' h
    · have hg : Within Grows (applyRollback w.state.configuration >>= fun _ => (raise e₆ : Prog Unit)) w₆ :=
        Within.bind grows_lenient.trans (applyRollback_grows _ w₆) fun _ w₇ _ => grows_lenient.refl w₇
      exact .inr ((Wrote.after hw₅.grown hwr).grow (hg.result h))
  | crash => simp at h

/-! ### finishNetwork -/

theorem settleNetwork_raise {bootstrap : Bool} {reason : Reason} {e : Error}
    (h : settleNetwork commit bootstrap reason w = (.raise e, w')) :
    platformNetwork (w.state.next commit) bootstrap w = (.raise e, w') ∨
      ∃ w₁ marks, platformNetwork (w.state.next commit) bootstrap w = (.ret (), w₁) ∧
        (∀ x ∈ marks, x.refuses = false) ∧
        persist { w₁ with state := w₁.state.settle commit, trace := marks ++ w₁.trace } = (.raise e, w') := by
  unfold settleNetwork at h
  rw [gets_bind] at h
  rcases bind_raise h with ⟨u, w₁, hnet, h⟩ | hnet
  · right
    rw [setState, modify_bind] at h
    refine ⟨w₁, [.settled commit w.state.pending.transaction.id (w.state.settle commit).configuration],
      hnet, by simp [Entry.refuses], ?_⟩
    rcases bind_raise h with ⟨_, w₂, _, h⟩ | h
    · simp [event] at h
    · exact h
  · exact .inl hnet

theorem checkFinish_alive {u : Unit} (h : checkFinish S commit w = (.ret u, w')) :
    w'.alive = w.alive := by
  unfold checkFinish at h
  rw [gets_bind] at h
  split at h
  · obtain ⟨v, w₁, hv, h⟩ := bind_ret h
    rw [← (fileHash_ret hv).alive]
    cases commit with
    | true => rw [(require_ret h).2]
    | false => rw [(require_ret h).2]
  · rw [(require_ret h).2]

/-- Where finishNetwork can raise: in its checks, or while it settles. -/
theorem finishNetwork_raise {e : Error}
    (h : finishNetwork S id commit actor requestId w = (.raise e, w')) :
    (Spared w w' ∧ Adds (fun x => !x.refuses) w w') ∨
      (id = w.state.pending.transaction.id ∧ finishable S w.state w.settings commit = true ∧
        ∃ w₁, Spared w w₁ ∧ Adds (fun x => !x.refuses) w w₁ ∧ w₁.alive = w.alive ∧
          settleNetwork commit false .cancel { w₁ with state := w₁.state.relabel actor requestId } =
            (.raise e, w')) := by
  have hadds : Lenient (Adds fun x => !x.refuses) := by
    refine adds_lenient ?_ fun _ _ => rfl
    intro x hx
    cases x with
    | networkFailed n b => simp [Entry.checks] at hx
    | _ => rfl
  have hrep : ¬ Reports id commit w.state := by
    intro hr
    rw [finishNetwork_repeated hr] at h
    simp at h
  rw [finishNetwork_unsettled hrep] at h
  rcases bind_raise h with ⟨u, w₁, hid, hrest⟩ | hid
  · rw [checkId, gets_bind] at hid
    obtain ⟨hpass, rfl⟩ := require_ret hid
    simp only [Bool.and_eq_true, beq_iff_eq] at hpass
    rcases bind_raise hrest with ⟨v, w₂, hfin, hsettle⟩ | hfin
    · refine .inr ⟨hpass.2, ?_, w₂, (spared_lenient.checkFinish commit w₁).result hfin,
        (hadds.checkFinish commit w₁).result hfin, checkFinish_alive hfin, hsettle⟩
      by_contra hn
      have hstop := (checkFinish_stops hpass.1 (by simpa using hn)).outcome
      rw [hfin] at hstop
      simp at hstop
    · exact .inl ⟨(spared_lenient.checkFinish commit w₁).result hfin,
        (hadds.checkFinish commit w₁).result hfin⟩
  · exact .inl ⟨(spared_lenient.checkId id w).result hid, (hadds.checkId id w).result hid⟩

/-- The transaction is as it was, under the labels of the call that failed. -/
theorem unchanged_of_relabel {w₁ : World} (h : Spared w w₁)
    (h' : Spared { w₁ with state := w₁.state.relabel actor requestId } w') : Unchanged w w' := by
  obtain ⟨hs, -, hj, -⟩ := h
  have hs' : w'.state = w.state.relabel actor requestId := by rw [h'.state, hs]
  exact ⟨by rw [hs']; rfl, by rw [hs']; rfl, by rw [hs']; rfl, by rw [hs']; rfl, by rw [hs']; rfl,
    by rw [hs']; rfl, by rw [hs']; rfl, by rw [hs']; rfl, by rw [hs']; rfl, h'.journal.trans hj⟩

/-- With the latch down, the raise comes from the checks, from the platform, or from a write
after the platform accepted. -/
theorem finishNetwork_sound {e : Error} (hf : w.failed = false)
    (h : finishNetwork S id commit actor requestId w = (.raise e, w')) :
    (Spared w w' ∧ Adds (fun x => !x.refuses) w w') ∨
      (Unchanged w w' ∧ w'.state = w.state.relabel actor requestId ∧ w'.failed = false ∧
        w'.alive = w.alive ∧ id = w.state.pending.transaction.id ∧ finishable S w.state w.settings commit = true ∧
        Grows w w') ∨
      (Wrote w w' ∧ Adds (fun x => !x.refuses) w w') := by
  rcases finishNetwork_raise h with hs | ⟨hid, hfin, w₁, hs₁, hadds, ha, hsettle⟩
  · exact .inl hs
  · rcases settleNetwork_raise hsettle with hnet | ⟨w₂, marks, hnet, hmarks, hp⟩
    · have hs := (platformCall_spared _ _).result hnet
      have halive : w'.alive = w.alive := (network_raise hnet).alive.trans ha
      refine .inr (.inl ⟨unchanged_of_relabel hs₁ hs, ?_, ?_, halive, hid, hfin, ?_⟩)
      · rw [hs.state, hs₁.state]
      · rw [hs.failed, ← hf]
        exact hs₁.failed
      · obtain ⟨es, hes, -⟩ := hs.grown
        exact Adds.trans _ _ _ hs₁.grown ⟨es, hes, by simp⟩
    · have hf₂ : w₂.failed = false := by
        rw [(network_ret hnet).failed, ← hf]
        exact hs₁.failed
      have hadds₂ : Adds (fun x => !x.refuses) w₁ w₂ := by
        obtain ⟨ws, hw, ht⟩ := (network_ret hnet).trace
        refine ⟨ws ++ [.network _ false], by rw [ht, List.append_assoc], ?_⟩
        intro x hx
        rcases List.mem_append.mp hx with hx | hx
        · have hpass := hw x hx
          cases x with
          | networkFailed n b => simp [Entry.passing] at hpass
          | _ => rfl
        · rw [List.mem_singleton.mp hx]
          rfl
      have hadds₃ : Adds (fun x => !x.refuses) w
          { w₂ with state := w₂.state.settle commit, trace := marks ++ w₂.trace } := by
        apply Adds.trans _ _ _ hadds
        apply Adds.trans _ _ _ hadds₂
        exact ⟨marks, rfl, by simpa using hmarks⟩
      have hadds₄ := (persist_adds (p := fun x => !x.refuses) ?_ (fun _ _ => rfl) ?_ _).result hp
      · have hwrote := persist_wrote (w := { w₂ with
          state := w₂.state.settle commit, trace := marks ++ w₂.trace }) hf₂
        rw [hp] at hwrote
        refine .inr (.inr ⟨Wrote.after ?_ (hwrote (by simp)), Adds.trans _ _ _ hadds₃ hadds₄⟩)
        obtain ⟨es, hes, -⟩ := hadds₃
        exact ⟨es, hes, by simp⟩
      · intro x hx
        cases x with
        | networkFailed n b => simp [Entry.checks] at hx
        | _ => rfl
      · intro x hx
        cases x with
        | networkFailed n b => simp [Entry.isSave] at hx
        | _ => rfl

end Backend

theorem Backend.settleNetwork_refused {bootstrap : Bool} {reason : Reason} (hf : w.failed = true)
    (hs : w.script = []) :
    settleNetwork commit bootstrap reason w = (.raise recoveryError, { w with
      state := w.state.settle commit
      trace := .settled commit w.state.pending.transaction.id (w.state.settle commit).configuration ::
        .network (w.state.next commit) bootstrap :: w.trace }) := by
  have hnet : platformNetwork (w.state.next commit) bootstrap w =
      (.ret (), w.log (.network (w.state.next commit) bootstrap)) := by
    unfold platformNetwork platformCall
    rw [effect_nil _ hs]
    rfl
  rw [settleNetwork, gets_bind, bind_of_ret hnet, setState, modify_bind]
  exact bind_of_raise (persist_of_failed hf)

/-- With the latch set the transaction is settled in memory only. -/
theorem Backend.finishNetwork_latched (actor requestId : Bytes) (hf : w.failed = true)
    (hs : w.script = []) (hid : id = w.state.pending.transaction.id)
    (hfin : finishable S w.state w.settings commit = true) :
    ∃ w', finishNetwork S id commit actor requestId w = (.raise recoveryError, w') ∧
      w'.state.isOpen = false ∧ Adds (fun x => !x.isSave) w w' := by
  have hadds : Lenient (Adds fun x => !x.isSave) := by
    refine adds_lenient ?_ fun _ _ => rfl
    intro x hx
    cases x with
    | journal old new => simp [Entry.checks] at hx
    | journalFailed old new left => simp [Entry.checks] at hx
    | _ => rfl
  have ho := finishable_open hfin
  have hrep : ¬ Reports id commit w.state := by
    intro hr
    rw [hr.settled.2] at ho
    simp at ho
  obtain ⟨es, hfinish⟩ := checkFinish_passes hs hfin
  have hcheck := (hadds.checkFinish commit w).result hfinish
  rw [finishNetwork_unsettled hrep, bind_of_ret (checkId_passes ho hid), bind_of_ret hfinish]
  refine ⟨_, settleNetwork_refused
    (w := { w with trace := es ++ w.trace, state := w.state.relabel actor requestId }) hf hs,
    settle_not_open _ commit, ?_⟩
  refine Adds.trans _ _ _ hcheck ⟨[.settled commit _ _, .network _ false], rfl, ?_⟩
  simp [Entry.isSave]

/-! ### Trying again -/

/-- Nothing stops the process and no operation fails; the settings authority may write. -/
structure Working (w : World) : Prop where
  sound : w.failed = false
  script : ∀ c ∈ w.script, c.crash = false ∧ c.fails = false

theorem working_effect {op : Choice → World → Outcome Error α × World} (hw : Working w)
    (h : ∀ c v, c.fails = false → v.toCore = w.toCore → Working v →
      ∃ a v', op c v = (.ret a, v') ∧ Working v') : Completes Working (effect op) w := by
  have hd : (w.draw.1.crash = false ∧ w.draw.1.fails = false) ∧ Working w.draw.2 := by
    unfold World.draw
    split
    · exact ⟨⟨rfl, rfl⟩, hw⟩
    · rename_i c cs hs
      refine ⟨hw.script c (by rw [hs]; exact List.mem_cons_self ..), hw.sound, ?_⟩
      intro x hx
      exact hw.script x (by rw [hs]; exact List.mem_cons_of_mem _ hx)
  obtain ⟨⟨hc, hf⟩, hw₁⟩ := hd
  obtain ⟨a, v', hop, hw'⟩ := h _ _ hf (draw_core w) hw₁
  have hrest := authority_rest w.draw.1.writes v'
  refine ⟨a, v'.authority w.draw.1.writes, ?_, ?_, ?_⟩
  · rw [effect_apply, if_neg (by simp [hc]), hop]
  · rw [(authority_frame w.draw.1.writes v').failed]
    exact hw'.sound
  · rw [hrest.2.2]
    exact hw'.script

theorem platformCall_working (entry : Bool → Entry) (hw : Working w) :
    Completes Working (platformCall entry) w := by
  apply working_effect hw
  intro c v hf _ hv
  rw [if_neg (by simp [hf])]
  exact ⟨_, _, rfl, hv.sound, hv.script⟩

namespace Backend

theorem persist_working (hw : Working w) : Completes Working persist w := by
  apply Completes.gets
  apply Completes.seq (Completes.require (by simp [hw.sound]) hw)
  intro _ w₁ hw₁
  apply Completes.attempt
  apply working_effect hw₁
  intro c v hf _ hv
  rw [if_neg (by simp [hf])]
  exact ⟨_, _, rfl, hv.sound, hv.script⟩

theorem settleNetwork_working (commit bootstrap : Bool) (reason : Reason) (hw : Working w) :
    Completes Working (settleNetwork commit bootstrap reason) w := by
  apply Completes.gets
  apply Completes.seq (platformCall_working _ hw)
  intro _ w₁ hw₁
  apply Completes.seq (Completes.modify ⟨hw₁.sound, hw₁.script⟩)
  intro _ w₂ hw₂
  apply Completes.seq (persist_working hw₂)
  intro _ w₃ hw₃
  exact Completes.modify ⟨hw₃.sound, hw₃.script⟩

theorem checkFinish_working (hw : Working w) (hfin : finishable S w.state w.settings commit = true) :
    Completes Working (checkFinish S commit) w := by
  unfold finishable at hfin
  unfold checkFinish
  apply Completes.gets
  split at hfin
  · rename_i hp
    rw [if_neg (by simp [hp])]
    exact Completes.require hfin hw
  · rename_i hp
    rw [if_pos (by simp [hp])]
    cases hd : digest S w.settings with
    | error e => simp [hd] at hfin
    | ok h =>
      rw [hd] at hfin
      have hcomp : Completes Working (fileHash S) w := by
        apply working_effect hw
        intro c v hf hcore hv
        have hset : v.settings = w.settings := congrArg Core.settings hcore
        rw [if_neg (by simp [hf]), hset]
        simp only [hd]
        exact ⟨_, _, rfl, hv.sound, hv.script⟩
      refine Completes.bind hcomp ?_
      intro h' w₁ hr hw₁
      have heq : h' = h := by
        have hd' := fileHash_digest hr
        rw [hd] at hd'
        injection hd' with hd'
        exact hd'.symm
      subst heq
      cases commit with
      | true => exact Completes.require (by simpa using hfin) hw₁
      | false => exact Completes.require (by simpa using hfin) hw₁
  · simp at hfin

theorem finishNetwork_working (hw : Working w) (hid : id = w.state.pending.transaction.id)
    (hfin : finishable S w.state w.settings commit = true) :
    Completes Working (finishNetwork S id commit actor requestId) w := by
  have ho := finishable_open hfin
  have hrep : ¬ Reports id commit w.state := by
    intro hr
    rw [hr.settled.2] at ho
    simp at ho
  have hrest : Completes Working (checkFinish S commit >>= fun _ =>
      setState (·.relabel actor requestId) >>= fun _ => settleNetwork commit false .cancel) w := by
    apply Completes.seq (checkFinish_working hw hfin)
    intro _ w₁ hw₁
    apply Completes.seq (Completes.modify ⟨hw₁.sound, hw₁.script⟩)
    intro _ w₂ hw₂
    exact settleNetwork_working _ _ _ hw₂
  obtain ⟨a, w', hret, hw'⟩ := hrest
  exact ⟨a, w', by rw [finishNetwork_unsettled hrep, bind_of_ret (checkId_passes ho hid), ← hret], hw'⟩

/-- A transaction that is settled now is settled in the journal. -/
theorem settleNetwork_journal {bootstrap : Bool} {reason : Reason} {u : Unit}
    (h : settleNetwork commit bootstrap reason w = (.ret u, w')) : w'.journal = some w'.state := by
  unfold settleNetwork at h
  rw [gets_bind] at h
  obtain ⟨_, w₁, _, h⟩ := bind_ret h
  obtain ⟨_, w₂, _, h⟩ := bind_ret h
  obtain ⟨_, w₃, hp, h⟩ := bind_ret h
  injection h with _ h
  rw [← h]
  exact (persist_ret hp).journal.trans (by rw [(persist_ret hp).state])

end Backend

/-- The second call returns, and the transaction is settled in memory and in the journal. -/
theorem finish_again {script : List Choice} (ha : w.alive = true) (hf : w.failed = false)
    (hs : ∀ c ∈ script, c.crash = false ∧ c.fails = false)
    (hid : id = w.state.pending.transaction.id)
    (hfin : Backend.finishable S w.state w.settings commit = true) :
    ∃ w', perform S (.finishNetwork id commit actor requestId) script w = (.ret .done, w') ∧
      Backend.Reports id commit w'.state ∧ w'.journal = some w'.state := by
  let op := Op.finishNetwork id commit actor requestId
  have hw : Working (entered op script w) := ⟨hf, hs⟩
  have hcomplete : Completes Working (Backend.finishNetwork S id commit actor requestId)
      (entered op script w) := Backend.finishNetwork_working hw hid hfin
  obtain ⟨u, w₁, h₁, hw₁⟩ := hcomplete
  have hspec : Spec S (Backend.finishNetwork S id commit actor requestId) (entered op script w)
      fun _ w' => w'.alive = true ∧ Backend.Reports id commit w'.state :=
    Backend.finishNetwork_spec ha fun hl => by rw [hw.sound] at hl; simp at hl
  have hrep := (hspec.post u w₁ h₁).2
  have hjournal : w₁.journal = some w₁.state := by
    have ho := Backend.finishable_open hfin
    have hn : ¬ Backend.Reports id commit (entered op script w).state := by
      intro hr
      rw [show (entered op script w).state = w.state from rfl] at hr
      rw [hr.settled.2] at ho
      simp at ho
    rw [Backend.finishNetwork_unsettled hn] at h₁
    obtain ⟨_, w₂, _, h₂⟩ := bind_ret h₁
    obtain ⟨_, w₃, _, h₃⟩ := bind_ret h₂
    obtain ⟨_, w₄, _, h₄⟩ := bind_ret h₃
    exact Backend.settleNetwork_journal h₄
  obtain ⟨_, w₂, h₂, -⟩ : Completes Working checkpoint w₁ :=
    working_effect hw₁ fun _ v _ _ hv => ⟨(), v, rfl, hv⟩
  have hframe := (checkpoint_spec (S := S) w₁).post _ _ h₂
  refine ⟨w₂.log (.returned op), ?_, ?_, ?_⟩
  · have hg : guarded S op (entered op script w) = (.ret .done, w₂) := by
      have hcall : Backend.call S op (entered op script w) = (.ret .done, w₁) := bind_of_ret h₁
      unfold guarded
      rw [bind_of_ret hcall, bind_of_ret h₂]
      rfl
    unfold perform
    rw [hg]
  · exact hframe.state ▸ hrep
  · exact (hframe.journal.trans hjournal).trans (by rw [← hframe.state]; rfl)

/-! ### Whole calls -/

/-- The operations that a caller asks for. -/
def Op.rejectable : Op → Bool
  | .apply _ | .beginNetwork _ _ _ | .prepareNetworkCommit _ | .finishNetwork _ _ _ _
  | .power _ _ _ | .resetDevice _ _ _ => true
  | _ => false

/-- The world that a rejection leaves alone: the one in which the call begins, or in
prepareNetworkCommit the one after its tick. -/
def beforeChecks (S : Site) (op : Op) (script : List Choice) (w : World) : World :=
  match op with
  | .prepareNetworkCommit _ => (Backend.tick S (entered op script w)).2
  | _ => entered op script w

/-- A call that raises before it wrote the journal changed nothing, and after a finishNetwork
that the platform refused the transaction can still be settled. -/
structure Harmless (S : Site) (op : Op) (script : List Choice) (w : World) : Prop where
  unchanged : ∀ e w', perform S op script w = (.raise e, w') →
    (∀ x ∈ newer (beforeChecks S op script w).trace w'.trace, x.isSave = false) →
    Unchanged (beforeChecks S op script w) w'
  again : ∀ id commit actor requestId e w', op = .finishNetwork id commit actor requestId →
    perform S op script w = (.raise e, w') →
    (∃ x ∈ newer w.trace w'.trace, x.refuses = true) →
    (w'.settings = w.settings → Backend.finishable S w'.state w'.settings commit = true) ∧
    ∀ commit' actor' requestId' script', (∀ c ∈ script', c.crash = false ∧ c.fails = false) →
      Backend.finishable S w'.state w'.settings commit' = true →
      ∃ w'', perform S (.finishNetwork id commit' actor' requestId') script' w' = (.ret .done, w'') ∧
        Backend.Reports id commit' w''.state ∧ w''.journal = some w''.state

/-- A finishNetwork that gets past its checks although a journal write has failed. -/
def settlesLatched (S : Site) (w : World) : Op → Bool
  | .finishNetwork id commit _ _ =>
    w.failed && id == w.state.pending.transaction.id && Backend.finishable S w.state w.settings commit
  | _ => false

theorem newer_of_grows {x : Entry} (hg : Grows w w') :
    ∃ es, w'.trace = es ++ w.trace ∧ newer w.trace (w'.log x).trace = x :: es := by
  obtain ⟨es, hes, -⟩ := hg
  refine ⟨es, hes, ?_⟩
  change newer w.trace (x :: w'.trace) = _
  rw [hes]
  exact newer_append (x :: es) w.trace

theorem Wrote.newer {x : Entry} (h : Wrote w w') :
    ∃ y ∈ newer w.trace (w'.log x).trace, y.isSave = true := by
  obtain ⟨es, ht, y, hy, hs⟩ := h
  have hg : Grows w w' := ⟨es, ht, by simp⟩
  obtain ⟨fs, hfs, hnew⟩ := newer_of_grows (x := x) hg
  have heq : es = fs := List.append_cancel_right (ht.symm.trans hfs)
  rw [hnew, ← heq]
  exact ⟨y, List.mem_cons_of_mem _ hy, hs⟩

theorem Unchanged.log {x : Entry} (h : Unchanged w w') : Unchanged w (w'.log x) := ⟨h.configuration,
  h.transaction, h.previous, h.previousHash, h.candidateHash, h.deadline, h.job, h.resetIntent,
  h.initialized, h.journal⟩

/-- Every operation but finishNetwork. -/
theorem call_rejects {op : Op} {script : List Choice} (ha : w.alive = true)
    (hop : op.rejectable = true) (hu : op.unguarded = false) :
    Rejects (beforeChecks S op script w) (Backend.call S op) (entered op script w) := by
  -- The reply is made of the value that the operation returns.
  have hreply : ∀ {γ : Type} {m : Prog γ} {f : γ → Backend.Reply} {w₀ w₁ : World}, Rejects w₀ m w₁ →
      Rejects w₀ (m >>= fun a => Pure.pure (f a)) w₁ := by
    intro γ m f w₀ w₁ hm e w' h
    rcases bind_raise h with ⟨a, w₂, _, h₂⟩ | hr
    · simp at h₂
    · exact hm e w' hr
  cases op with
  | apply config => exact hreply (Backend.apply_rejects _)
  | beginNetwork p actor requestId => exact hreply (Backend.beginNetwork_rejects ha rfl)
  | prepareNetworkCommit id => exact hreply (Backend.prepareNetworkCommit_rejects ha)
  | power action actor requestId => exact hreply (Backend.power_rejects _)
  | resetDevice confirmed actor requestId => exact hreply (Backend.resetDevice_rejects _)
  | finishNetwork id commit actor requestId => simp [Op.unguarded] at hu
  | _ => simp [Op.rejectable] at hop

theorem finish_harmless {script : List Choice} (ha : w.alive = true)
    (hn : settlesLatched S w (.finishNetwork id commit actor requestId) = false) :
    Harmless S (.finishNetwork id commit actor requestId) script w := by
  let op := Op.finishNetwork id commit actor requestId
  have hcall : ∀ {e w'}, perform S op script w = (.raise e, w') →
      ∃ w₁, Backend.finishNetwork S id commit actor requestId (entered op script w) = (.raise e, w₁) ∧
        w' = w₁.log (.raised op) := by
    intro e w' h
    obtain ⟨w₁, hcall, rfl⟩ := perform_raise h
    rcases bind_raise hcall with ⟨_, w₂, _, h₂⟩ | hr
    · simp at h₂
    · exact ⟨w₁, hr, rfl⟩
  -- With the latch set only the checks can raise.
  have hchecks : ∀ {e w₁}, w.failed = true →
      Backend.finishNetwork S id commit actor requestId (entered op script w) = (.raise e, w₁) →
      Spared (entered op script w) w₁ ∧ Adds (fun x => !x.refuses) (entered op script w) w₁ := by
    intro e w₁ hf hr
    rcases Backend.finishNetwork_raise hr with hs | ⟨hid, hfin, _⟩
    · exact hs
    · have hid' : id = w.state.pending.transaction.id := hid
      have hfin' : Backend.finishable S w.state w.settings commit = true := hfin
      simp [settlesLatched, hf, hfin', ← hid'] at hn
  refine ⟨?_, ?_⟩
  · intro e w' h hquiet
    obtain ⟨w₁, hr, rfl⟩ := hcall h
    by_cases hf : w.failed = true
    · exact (hchecks hf hr).1.unchanged.log
    · have hsound : (entered op script w).failed = false := by simpa [entered] using hf
      rcases Backend.finishNetwork_sound hsound hr with ⟨hs, -⟩ | ⟨hun, -⟩ | ⟨hwr, -⟩
      · exact hs.unchanged.log
      · exact hun.log
      · obtain ⟨y, hy, hsave⟩ := hwr.newer (x := .raised op)
        rw [hquiet y hy] at hsave
        simp at hsave
  · rintro _ _ _ _ e w' ⟨⟩ h ⟨x, hx, hrefuses⟩
    obtain ⟨w₁, hr, rfl⟩ := hcall h
    -- Without a refusal among the entries of the call there is none in the history since.
    have hnone : ¬ Adds (fun x => !x.refuses) (entered op script w) w₁ := by
      rintro ⟨es, hes, hall⟩
      have ht : (w₁.log (.raised op)).trace = (.raised op :: (es ++ [.call op w.failed])) ++ w.trace := by
        change .raised op :: w₁.trace = _
        rw [hes]
        simp [entered]
      rw [ht, newer_append] at hx
      rcases List.mem_cons.mp hx with rfl | hx
      · simp [Entry.refuses] at hrefuses
      · rcases List.mem_append.mp hx with hx | hx
        · have hno := hall x hx
          simp [hrefuses] at hno
        · rw [List.mem_singleton.mp hx] at hrefuses
          simp [Entry.refuses] at hrefuses
    by_cases hf : w.failed = true
    · exact absurd (hchecks hf hr).2 hnone
    · have hsound : (entered op script w).failed = false := by simpa [entered] using hf
      rcases Backend.finishNetwork_sound hsound hr with
        ⟨-, hadds⟩ | ⟨hun, hstate, hf', ha', hid, hfin, -⟩ | ⟨-, hadds⟩
      · exact absurd hadds hnone
      · have hstate' : (w₁.log (.raised op)).state = w.state.relabel actor requestId := hstate
        refine ⟨?_, ?_⟩
        · intro hset
          rw [hset, hstate']
          exact hfin
        · intro commit' actor' requestId' script' hs hfin'
          refine finish_again (ha'.trans ha) hf' hs ?_ hfin'
          rw [hstate']
          exact hid
      · exact absurd hadds hnone

/-- Rejected operations change nothing, for the next call of any run and every behaviour of the
environment, exactly if the call is not a finishNetwork that gets past its checks although a
journal write has failed. -/
theorem rejections_change_nothing (S : Site) (settings : Option Bytes) (tree : List Bytes)
    (status : StatusFile) (es : List Event) (op : Op) :
    let w := run S (fresh settings tree status) es
    w.alive = true → op.rejectable = true →
    ((∀ script, Harmless S op script w) ↔ settlesLatched S w op = false) := by
  intro w ha hop
  constructor
  · intro h
    by_contra hn
    cases op with
    | finishNetwork id commit actor requestId =>
      simp only [settlesLatched, Bool.not_eq_false, Bool.and_eq_true, beq_iff_eq] at hn
      obtain ⟨⟨hf, hid⟩, hfin⟩ := hn
      let op := Op.finishNetwork id commit actor requestId
      obtain ⟨w₁, hr, hclosed, hadds⟩ := Backend.finishNetwork_latched (S := S) (w := entered op [] w)
        actor requestId hf rfl hid hfin
      have hp : perform S op [] w = (.raise Backend.recoveryError, w₁.log (.raised op)) := by
        unfold perform guarded Backend.call
        rw [bind_of_raise (bind_of_raise hr)]
      have hun := (h []).unchanged _ _ hp ?_
      · have ho : w.state.isOpen = true := Backend.finishable_open hfin
        have htx : w₁.state.pending.transaction = w.state.pending.transaction := hun.transaction
        rw [State.isOpen, htx, ← State.isOpen, ho] at hclosed
        simp at hclosed
      · obtain ⟨fs, hfs, hall⟩ := hadds
        intro x hx
        change x ∈ newer (entered op [] w).trace (.raised op :: w₁.trace) at hx
        rw [hfs, show Entry.raised op :: (fs ++ (entered op [] w).trace) =
          (.raised op :: fs) ++ (entered op [] w).trace from rfl, newer_append] at hx
        rcases List.mem_cons.mp hx with rfl | hx
        · rfl
        · simpa using hall x hx
    | _ => simp [settlesLatched] at hn
  · intro hn script
    by_cases hu : op.unguarded = true
    · cases op with
      | finishNetwork id commit actor requestId => exact finish_harmless ha hn
      | bootstrap => simp [Op.rejectable] at hop
      | start => simp [Op.rejectable] at hop
      | _ => simp [Op.unguarded] at hu
    · refine ⟨?_, ?_⟩
      · intro e w' h hquiet
        obtain ⟨w₁, hcall, rfl⟩ := perform_raise h
        rcases call_rejects ha hop (by simpa using hu) e w₁ hcall with hs | hwr
        · exact hs.unchanged.log
        · obtain ⟨y, hy, hsave⟩ := hwr.newer (x := .raised op)
          rw [hquiet y hy] at hsave
          simp at hsave
      · rintro id commit actor requestId e w' rfl
        simp [Op.unguarded] at hu

/-- A cancellation of the pending proposal in which the platform refuses the old network. -/
def Fixture.refusedCancel : Op := .finishNetwork Fixture.id false (ascii "web") []

theorem rejections_change_nothing_refused :
    ∀ script, Harmless Fixture.site Fixture.refusedCancel script
      (run Fixture.site Fixture.device (Fixture.started ++ [Fixture.begin])) := by
  exact (rejections_change_nothing Fixture.site (some Fixture.previous) [] .missing
    (Fixture.started ++ [Fixture.begin]) Fixture.refusedCancel (by decide) (by decide)).mpr
    (by decide)

/-- After the write of a preparation has failed, a cancellation raises without having written
the journal, and the transaction is rolled back in memory. -/
theorem rejection_changes_transaction :
    let w := run Fixture.site Fixture.device Fixture.lostPreparation
    let p := perform Fixture.site Fixture.refusedCancel [] w
    w.alive = true ∧ p.1 = .raise Backend.recoveryError ∧
      (∀ x ∈ newer w.trace p.2.trace, x.isSave = false) ∧
      w.state.pending.transaction.state = .committing ∧
      p.2.state.pending.transaction.state = .rolledBack := by
  decide

end Monutchee.System
