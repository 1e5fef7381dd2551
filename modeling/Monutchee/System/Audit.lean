import Monutchee.System.Checks
import Monutchee.System.Service
import Monutchee.Logging.UserLog

/-!
# Audit events

Every audit event of the service is valid for the public log, so that none is dropped, and
each is signed by the caller on record: the caller of the network transaction, the caller of
the job, or the system itself for a link. A caller that is not the configured authority is on
record under its uid, whatever its message says.
-/

namespace Monutchee.System
open Lib Lib.Act Validation Logging Fixture

variable {D : Daemon} {S : Site} {w w' w₀ : World}

/-! ### Who signs an event -/

/-- The callers on record: of the network transaction and of the job. -/
structure Callers where
  network : AuditContext
  job : AuditContext
  deriving DecidableEq, Repr

def State.callers (s : State) : Callers :=
  ⟨⟨s.pending.actor, s.pending.requestId⟩, ⟨s.jobActor, s.jobRequestId⟩⟩

/-- What an event is about. -/
inductive Concern where
  | link | network | job
  deriving DecidableEq, Repr

def concernOf (action : Bytes) : Concern :=
  if action = ascii "link" then .link
  else if action = ascii "configure_network" then .network
  else .job

def UserEvent.concern (e : UserEvent) : Concern := concernOf e.action

def UserEvent.signature (e : UserEvent) : AuditContext := ⟨e.actor, e.requestId⟩

def Callers.signs (c : Callers) : Concern → AuditContext
  | .link => { actor := ascii "system" }
  | .network => c.network
  | .job => c.job

def Signed (c : Callers) (e : UserEvent) : Prop := e.signature = c.signs e.concern

theorem text_concern (action : JobAction) : concernOf action.text = .job := by
  cases action with
  | none => rfl
  | reboot => decide
  | shutdown => decide
  | deviceReset => decide

theorem jobEvent_signed (s : State) (priority : Priority) (code message outcome : Bytes) :
    Signed s.callers (Backend.jobEvent s priority code message outcome) := by
  have hc : (Backend.jobEvent s priority code message outcome).concern = .job := text_concern s.job.action
  rw [Signed, hc]
  rfl

theorem completedEvent_signed (s : State) : Signed s.callers (completedEvent s) := by
  have hc : (completedEvent s).concern = .job := text_concern .deviceReset
  rw [Signed, hc]
  rfl

theorem requestEvent_signed (s : State) : Signed s.callers (Backend.requestEvent s) := by
  unfold Backend.requestEvent
  split
  · exact jobEvent_signed ..
  · exact jobEvent_signed ..

theorem configure_concern {e : UserEvent} (h : e.action = ascii "configure_network") :
    e.concern = .network := by
  rw [UserEvent.concern, h]
  decide

theorem settleEvent_signed (s : State) (commit : Bool) (reason : Backend.Reason) :
    Signed s.callers (Backend.settleEvent s commit reason) := by
  rw [Signed, configure_concern rfl]
  rfl

theorem pendingEvent_signed (s : State) : Signed s.callers (Backend.pendingEvent s) := by
  rw [Signed, configure_concern rfl]
  rfl

theorem linkEvent_signed (c : Callers) (link : NetworkStatus) : Signed c (Backend.linkEvent link) := rfl

/-! ### Programs and the callers on record -/

/-- From `w₀` on the callers on record did not change, and they signed every new event. -/
structure Signs (w₀ w : World) : Prop where
  callers : w.state.callers = w₀.state.callers
  events : ∃ new, w.events = w₀.events ++ new ∧ ∀ e ∈ new, Signed w₀.state.callers e

theorem Signs.refl (w : World) : Signs w w := ⟨rfl, [], by simp⟩

/-- A step that emits nothing. -/
theorem Signs.step (h : Signs w₀ w) (hc : w'.state.callers = w.state.callers)
    (he : w'.events = w.events) : Signs w₀ w' := by
  refine ⟨hc.trans h.callers, ?_⟩
  rw [he]
  exact h.events

theorem Signs.emit (h : Signs w₀ w) {e : UserEvent} (he : Signed w₀.state.callers e) :
    Signs w₀ { w with events := w.events ++ [e] } := by
  obtain ⟨new, hn, hs⟩ := h.events
  refine ⟨h.callers, new ++ [e], ?_, ?_⟩
  · simp [hn]
  · intro x hx
    rcases List.mem_append.mp hx with hx | hx
    · exact hs x hx
    · rw [List.mem_singleton.mp hx]
      exact he

/-- The members and the events are as before. -/
structure Still (w w' : World) : Prop where
  state : w'.state = w.state
  events : w'.events = w.events

theorem Still.refl (w : World) : Still w w := ⟨rfl, rfl⟩

theorem Still.trans (a b c : World) (h : Still a b) (h' : Still b c) : Still a c :=
  ⟨h'.state.trans h.state, h'.events.trans h.events⟩

theorem Signs.still (h : Signs w₀ w) (hs : Still w w') : Signs w₀ w' := by
  apply h.step _ hs.events
  rw [hs.state]

theorem still_lenient : Lenient Still where
  refl := Still.refl
  trans := Still.trans
  draw _ _ := ⟨rfl, rfl⟩
  stop _ := ⟨rfl, rfl⟩
  write _ _ := ⟨rfl, rfl⟩
  log _ _ _ := ⟨rfl, rfl⟩

/-- A program that changes neither. -/
theorem Signs.pass {α : Type} {m : Prog α} (h : Signs w₀ w) (hm : Within Still m w) :
    Upholds (Signs w₀) m w fun _ _ => True := ⟨h.still hm, fun _ _ _ => trivial⟩

theorem Signs.assign {f : World → World} (h : Signs w₀ w) (hc : (f w).state.callers = w.state.callers)
    (he : (f w).events = w.events) : Upholds (Signs w₀) (modify f : Prog Unit) w fun _ _ => True :=
  ⟨h.step hc he, fun _ _ _ => trivial⟩

theorem platformCall_still (entry : Bool → Entry) (w : World) : Within Still (platformCall entry) w :=
  still_lenient.platformCall entry (fun _ _ => ⟨rfl, rfl⟩) w

theorem remove_still (paths : List Bytes) (w : World) : Still w (paths.foldl (World.remove S) w) := by
  induction paths generalizing w with
  | nil => exact Still.refl w
  | cons p paths ih =>
    have hp : Still w (w.remove S p) := ⟨rfl, rfl⟩
    exact Still.trans _ _ _ hp (ih (w.remove S p))

theorem durableRemove_still (p : Bytes) (w : World) : Within Still (durableRemove S p) w := by
  apply still_lenient.effect
  intro c w
  split
  · exact remove_still _ w
  · exact ⟨rfl, rfl⟩

namespace Backend

theorem persist_still (w : World) : Within Still persist w := by
  unfold persist
  apply Within.bind Still.trans (Within.gets Still.refl _ w)
  intro failed w₁ _
  apply Within.bind Still.trans (Within.require Still.refl _ _ w₁)
  intro _ w₂ _
  apply Within.attempt Still.trans
  · apply still_lenient.effect
    intro c w
    split
    · exact ⟨rfl, rfl⟩
    · exact ⟨rfl, rfl⟩
  · intro e w₃ _
    exact ⟨rfl, rfl⟩

/-! ### What is emitted under the callers on record -/

theorem event_signs {e : UserEvent} (h : Signs w₀ w) (he : Signed w₀.state.callers e) :
    Upholds (Signs w₀) (event e) w fun _ _ => True := ⟨h.emit he, fun _ _ _ => trivial⟩

/-- An event of the state that a program has read before. -/
theorem Signs.signed {s : State} {e : UserEvent} (h : s.callers = w₀.state.callers)
    (he : Signed s.callers e) : Signed w₀.state.callers e := h ▸ he

theorem settleNetwork_signs (commit bootstrap : Bool) (reason : Reason) (h : Signs w₀ w) :
    Upholds (Signs w₀) (settleNetwork commit bootstrap reason) w fun _ _ => True := by
  apply Upholds.get
  apply Upholds.bind (h.pass (platformCall_still _ w))
  intro _ w₁ h₁ _
  apply Upholds.bind (h₁.assign rfl rfl)
  intro _ w₂ h₂ _
  apply Upholds.bind (h₂.pass (persist_still w₂))
  intro _ w₃ h₃ _
  exact event_signs h₃ (Signs.signed h.callers (settleEvent_signed (w.state.settle commit) commit reason))

theorem recoverNetwork_signs (bootstrap : Bool) (h : Signs w₀ w) :
    Upholds (Signs w₀) (recoverNetwork S bootstrap) w fun _ _ => True := by
  refine ⟨?_, fun _ _ _ => trivial⟩
  rw [recoverNetwork_apply]
  split
  · split
    · apply Upholds.kept (Q := fun _ _ => True)
      apply Upholds.bind (h.pass (still_lenient.fileHash w))
      intro hash w₁ h₁ _
      exact settleNetwork_signs _ bootstrap _ h₁
    · exact (settleNetwork_signs false bootstrap _ h).kept
  · exact h

theorem bootPolicy_signs (h : Signs w₀ w) : Upholds (Signs w₀) bootPolicy w fun _ _ => True := by
  apply Upholds.get
  apply Upholds.bind (h.pass (platformCall_still _ w))
  intro _ w₁ h₁ _
  apply Upholds.bind (h₁.pass (platformCall_still _ w₁))
  intro _ w₂ h₂ _
  exact h₂.pass (platformCall_still _ w₂)

theorem observeLink_signs (link : NetworkStatus) (h : Signs w₀ w) :
    Upholds (Signs w₀) (observeLink S link) w fun _ _ => True := by
  unfold observeLink
  split
  · apply Upholds.get
    have hlast : ∀ u, Signs w₀ u → Upholds (Signs w₀) (modify fun w => { w with
        carriers := (link.interface, link.carrier) :: w.carriers.filter (·.1 != link.interface) } :
        Prog Unit) u fun _ _ => True := fun u hu => hu.assign rfl rfl
    cases w.carriers.lookup link.interface with
    | some previous =>
      by_cases hp : (previous != link.carrier) = true
      · simp only [if_pos hp]
        apply Upholds.bind (event_signs h (linkEvent_signed _ link))
        intro _ w₁ h₁ _
        exact hlast w₁ h₁
      · simp only [if_neg hp]
        exact hlast w h
    | none => exact hlast w h
  · exact Upholds.pure h trivial

theorem observeNetwork_signs (h : Signs w₀ w) :
    Upholds (Signs w₀) (observeNetwork S) w fun _ _ => True := by
  apply Upholds.attempt
  · have hl : Within Still platformNetworkLinks w := by
      apply still_lenient.effect
      intro c w
      split
      · exact ⟨rfl, rfl⟩
      · exact ⟨rfl, rfl⟩
    apply Upholds.bind (h.pass hl)
    intro links w₁ h₁ _
    apply Upholds.bind (h₁.assign rfl rfl)
    intro _ w₂ h₂ _
    exact Upholds.each h₂ fun link _ w hw => observeLink_signs link hw
  · intro e w₁ h₁ _
    exact Upholds.pure h₁ trivial

theorem dispatchPower_signs (h : Signs w₀ w) : Upholds (Signs w₀) dispatchPower w fun _ _ => True := by
  apply Upholds.get
  apply Upholds.attempt
  · have hp : Within Still (platformPower (if w.state.job.action == .shutdown then .shutdown
        else .reboot)) w := by
      apply still_lenient.effect
      intro c w
      dsimp only
      split
      · exact ⟨rfl, rfl⟩
      · exact ⟨rfl, rfl⟩
    apply Upholds.bind (h.pass hp)
    intro _ w₁ h₁ _
    exact event_signs h₁ (Signs.signed h.callers (jobEvent_signed w.state ..))
  · intro e w₁ h₁ _
    apply Upholds.bind (h₁.assign rfl rfl)
    intro _ w₂ h₂ _
    apply Upholds.bind (h₂.pass (persist_still w₂))
    intro _ w₃ h₃ _
    apply Upholds.bind (event_signs h₃ (Signs.signed h.callers (jobEvent_signed w.state ..)))
    intro _ w₄ h₄ _
    exact Upholds.raise h₄

theorem tickObserve_signs (h : Signs w₀ w) : Upholds (Signs w₀) (tickObserve S) w fun _ _ => True := by
  apply Upholds.bind (h.pass (still_lenient.readClock w))
  intro t w₁ h₁ _
  apply Upholds.get
  split
  · apply Upholds.bind (h₁.pass (still_lenient.readClock w₁))
    intro t w₂ h₂ _
    apply Upholds.bind (h₂.assign rfl rfl)
    intro _ w₃ h₃ _
    exact observeNetwork_signs h₃
  · exact Upholds.pure h₁ trivial

theorem tickExpire_signs (h : Signs w₀ w) : Upholds (Signs w₀) (tickExpire S) w fun _ _ => True := by
  apply Upholds.get
  split
  · apply Upholds.bind (h.pass (still_lenient.readClock w))
    intro t w₁ h₁ _
    split
    · exact recoverNetwork_signs false h₁
    · exact Upholds.pure h₁ trivial
  · exact Upholds.pure h trivial

theorem tickDispatch_signs (h : Signs w₀ w) : Upholds (Signs w₀) tickDispatch w fun _ _ => True := by
  apply Upholds.get
  split
  · apply Upholds.bind (h.pass (still_lenient.readClock w))
    intro t w₁ h₁ _
    split
    · apply Upholds.bind (h₁.assign rfl rfl)
      intro _ w₂ h₂ _
      apply Upholds.bind (h₂.assign rfl rfl)
      intro _ w₃ h₃ _
      apply Upholds.bind (h₃.pass (persist_still w₃))
      intro _ w₄ h₄ _
      exact dispatchPower_signs h₄
    · exact Upholds.pure h₁ trivial
  · exact Upholds.pure h trivial

theorem tick_signs (h : Signs w₀ w) : Upholds (Signs w₀) (tick S) w fun _ _ => True := by
  apply Upholds.get
  apply Upholds.bind (h.pass (Within.require Still.refl _ _ w))
  intro _ w₁ h₁ _
  apply Upholds.bind (tickObserve_signs h₁)
  intro _ w₂ h₂ _
  apply Upholds.bind (tickExpire_signs h₂)
  intro _ w₃ h₃ _
  exact tickDispatch_signs h₃

theorem networkTransaction_signs (h : Signs w₀ w) :
    Upholds (Signs w₀) (networkTransaction S) w fun _ _ => True := by
  apply Upholds.bind (tick_signs h)
  intro _ w₁ h₁ _
  apply Upholds.get
  have hr : Within Still (remaining w₁.state) w₁ := by
    unfold remaining
    split
    · apply Within.bind Still.trans (still_lenient.readClock w₁)
      intro t w₂ _
      split
      · apply Within.bind Still.trans (still_lenient.readClock w₂)
        intro t w₃ _
        exact Still.refl w₃
      · exact Still.refl w₂
    · exact Still.refl w₁
  apply Upholds.bind (h₁.pass hr)
  intro _ w₂ h₂ _
  exact Upholds.pure h₂ trivial

theorem prepareNetworkCommit_signs (id : Bytes) (h : Signs w₀ w) :
    Upholds (Signs w₀) (prepareNetworkCommit S id) w fun _ _ => True := by
  apply Upholds.bind (tick_signs h)
  intro _ w₁ h₁ _
  apply Upholds.bind (h₁.pass (still_lenient.checkId id w₁))
  intro _ w₂ h₂ _
  apply Upholds.get
  split
  · exact Upholds.pure h₂ trivial
  · apply Upholds.bind (h₂.pass (still_lenient.fileHash w₂))
    intro hash w₃ h₃ _
    apply Upholds.bind (h₃.pass (Within.require Still.refl _ _ w₃))
    intro _ w₄ h₄ _
    apply Upholds.bind (h₄.pass (still_lenient.readClock w₄))
    intro t w₅ h₅ _
    apply Upholds.bind (h₅.assign rfl rfl)
    intro _ w₆ h₆ _
    exact h₆.pass (persist_still w₆)

theorem apply_signs (config : Configuration) (h : Signs w₀ w) :
    Upholds (Signs w₀) (apply S config) w fun _ _ => True := by
  apply Upholds.bind (h.pass (still_lenient.idle w))
  intro _ w₁ h₁ _
  apply Upholds.bind (h₁.pass (Within.lift Still.refl _ w₁))
  intro _ w₂ h₂ _
  apply Upholds.bind (h₂.pass (still_lenient.checkHostname config w₂))
  intro _ w₃ h₃ _
  apply Upholds.bind (h₃.pass (still_lenient.validateConfiguration config w₃))
  intro _ w₄ h₄ _
  apply Upholds.get
  apply Upholds.bind (h₄.pass (Within.require Still.refl _ _ w₄))
  intro _ w₅ h₅ _
  apply Upholds.attempt
  · apply Upholds.bind (h₅.pass (platformCall_still _ w₅))
    intro _ w₆ h₆ _
    apply Upholds.bind (h₆.pass (platformCall_still _ w₆))
    intro _ w₇ h₇ _
    apply Upholds.bind (h₇.assign rfl rfl)
    intro _ w₈ h₈ _
    exact h₈.pass (persist_still w₈)
  · intro e w₆ h₆ _
    apply Upholds.bind (P := fun _ _ => True)
    · apply Upholds.bind (h₆.assign rfl rfl)
      intro _ w₇ h₇ _
      apply Upholds.attempt
      · apply Upholds.bind (h₇.pass (platformCall_still _ w₇))
        intro _ w₈ h₈ _
        apply Upholds.bind (h₈.pass (platformCall_still _ w₈))
        intro _ w₉ h₉ _
        exact h₉.pass (persist_still w₉)
      · intro e w₈ h₈ _
        exact Upholds.raise h₈
    · intro _ w₇ h₇ _
      exact Upholds.raise h₇

theorem startDiscover_signs (h : Signs w₀ w) : Upholds (Signs w₀) startDiscover w fun _ _ => True := by
  have hd : Within Still platformDiscover w := by
    apply still_lenient.effect
    intro c w
    split
    · exact ⟨rfl, rfl⟩
    · exact ⟨rfl, rfl⟩
  apply Upholds.bind (h.pass hd)
  intro c w₁ h₁ _
  apply Upholds.bind (h₁.assign rfl rfl)
  intro _ w₂ h₂ _
  apply Upholds.bind (h₂.pass (Within.lift Still.refl _ w₂))
  intro _ w₃ h₃ _
  apply Upholds.bind (h₃.assign rfl rfl)
  intro _ w₄ h₄ _
  exact h₄.pass (persist_still w₄)

theorem startInterrupt_signs (h : Signs w₀ w) :
    Upholds (Signs w₀) startInterrupt w fun _ _ => True := by
  apply Upholds.get
  split
  · apply Upholds.bind (h.assign rfl rfl)
    intro _ w₁ h₁ _
    apply Upholds.bind (h₁.pass (persist_still w₁))
    intro _ w₂ h₂ _
    apply Upholds.get
    exact event_signs h₂ (Signs.signed h₂.callers (jobEvent_signed w₂.state ..))
  · exact Upholds.pure h trivial

theorem start_signs (h : Signs w₀ w) : Upholds (Signs w₀) (start S) w fun _ _ => True := by
  have hrest : ∀ u, Signs w₀ u → Upholds (Signs w₀) (do recoverNetwork S false; startInterrupt) u
      fun _ _ => True := by
    intro u hu
    apply Upholds.bind (recoverNetwork_signs false hu)
    intro _ w₁ h₁ _
    exact startInterrupt_signs h₁
  apply Upholds.get
  split
  · apply Upholds.bind (h.pass (still_lenient.readClock w))
    intro t w₁ h₁ _
    exact h₁.assign rfl rfl
  · dsimp only
    split
    · apply Upholds.bind (startDiscover_signs h)
      intro _ w₁ h₁ _
      exact hrest w₁ h₁
    · exact hrest w h

end Backend

/-! ### Calls that bring in a caller -/

/-- The callers became `c` before the first event, and they signed every event since. -/
def Switched (c : Callers) (w₀ w : World) : Prop :=
  ∃ w₁ : World, w₁.events = w₀.events ∧ w₁.state.callers = c ∧ Signs w₁ w

def Turns (c : Callers) (w₀ w : World) : Prop := Still w₀ w ∨ Switched c w₀ w

variable {c : Callers} {α : Type}

theorem Signs.switched (h : Signs w₀ w) : Switched w₀.state.callers w₀ w := ⟨w₀, rfl, rfl, h⟩

theorem Turns.quiet {m : Prog α} (h : Still w₀ w) (hm : Within Still m w) :
    Upholds (Turns c w₀) m w fun _ w' => Still w₀ w' := by
  have hs := Still.trans _ _ _ h hm
  refine ⟨.inl hs, ?_⟩
  intro a w' hw
  rw [hw] at hs
  exact hs

theorem Turns.switch {f : World → World} (h : Still w₀ w) (he : (f w).events = w.events)
    (hc : (f w).state.callers = c) :
    Upholds (Turns c w₀) (modify f : Prog Unit) w fun _ w' => Switched c w₀ w' := by
  have hs : Switched c w₀ (f w) := ⟨f w, he.trans h.events, hc, Signs.refl _⟩
  exact Upholds.modify (.inr hs) hs

/-- A program that only signs events, once the callers are on record. -/
theorem Switched.run {m : Prog α} (hm : ∀ w₁ w, Signs w₁ w → Upholds (Signs w₁) m w fun _ _ => True)
    (h : Switched c w₀ w) : Upholds (Turns c w₀) m w fun _ w' => Switched c w₀ w' := by
  obtain ⟨w₁, he, hc, hs⟩ := h
  have hu := (hm w₁ w hs).weaken fun w' h => (.inr ⟨w₁, he, hc, h⟩ : Turns c w₀ w')
  exact hu.mono fun a w' _ h => ⟨w₁, he, hc, h.1⟩

/-- The callers that a call leaves on record when it gets that far. -/
def Callers.after (c : Callers) : Op → Callers
  | .beginNetwork _ actor requestId | .finishNetwork _ _ actor requestId =>
    { c with network := ⟨actor, requestId⟩ }
  | .power _ actor requestId | .resetDevice _ actor requestId => { c with job := ⟨actor, requestId⟩ }
  | _ => c

namespace Backend

theorem beginNetwork_turns (p : NetworkProposal) (actor requestId : Bytes) (w : World) :
    Upholds (Turns { w.state.callers with network := ⟨actor, requestId⟩ } w)
      (beginNetwork S p actor requestId) w fun _ _ => True := by
  apply Upholds.bind (Turns.quiet (Still.refl w) (still_lenient.checkProposal p w))
  intro _ w₁ _ h₁
  apply Upholds.bind (Turns.quiet h₁ (still_lenient.randomId w₁))
  intro id w₂ _ h₂
  apply Upholds.bind (Turns.quiet h₂ (still_lenient.readClock w₂))
  intro t w₃ _ h₃
  apply Upholds.get
  apply Upholds.bind (Turns.switch h₃ rfl (by rw [← h₃.state]; rfl))
  intro _ w₄ _ h₄
  refine (Switched.run ?_ h₄).mono fun _ _ _ _ => trivial
  intro v u hu
  apply Upholds.bind (hu.pass (persist_still u))
  intro _ u₁ h₁ _
  apply Upholds.bind (P := fun _ _ => True)
  · apply Upholds.attempt
    · exact h₁.pass (platformCall_still _ u₁)
    · intro e u₂ h₂ _
      apply Upholds.bind (settleNetwork_signs false false .recovery h₂)
      intro _ u₃ h₃ _
      exact Upholds.raise h₃
  · intro _ u₂ h₂ _
    apply Upholds.get
    apply Upholds.bind (event_signs h₂ (Signs.signed h₂.callers (pendingEvent_signed u₂.state)))
    intro _ u₃ h₃ _
    exact networkTransaction_signs h₃

theorem finishNetwork_turns (id : Bytes) (commit : Bool) (actor requestId : Bytes) (w : World) :
    Upholds (Turns { w.state.callers with network := ⟨actor, requestId⟩ } w)
      (finishNetwork S id commit actor requestId) w fun _ _ => True := by
  apply Upholds.get
  by_cases hc : (id == w.state.pending.transaction.id &&
      w.state.pending.transaction.state == (if commit then .committed else .rolledBack)) = true
  · rw [if_pos hc]
    exact Upholds.pure (.inl (Still.refl w)) trivial
  · rw [if_neg hc]
    apply Upholds.bind (Turns.quiet (Still.refl w) (still_lenient.checkId id w))
    intro _ w₁ _ h₁
    apply Upholds.bind (Turns.quiet h₁ (still_lenient.checkFinish commit w₁))
    intro _ w₂ _ h₂
    apply Upholds.bind (Turns.switch h₂ rfl (by rw [← h₂.state]; rfl))
    intro _ w₃ _ h₃
    have hrun := Switched.run (fun _ _ hu => settleNetwork_signs commit false .cancel hu) h₃
    exact hrun.mono fun _ _ _ _ => trivial

theorem acceptJob_turns {job : Job} (reset : Bool) (actor requestId : Bytes) (h : Still w₀ w) :
    Upholds (Turns { w₀.state.callers with job := ⟨actor, requestId⟩ } w₀)
      (acceptJob job reset actor requestId) w fun _ _ => True := by
  apply Upholds.bind (Turns.switch h rfl (by rw [← h.state]; rfl))
  intro _ w₁ _ h₁
  refine (Switched.run ?_ h₁).mono fun _ _ _ _ => trivial
  intro v u hu
  apply Upholds.bind (hu.pass (persist_still u))
  intro _ u₁ h₁ _
  apply Upholds.get
  apply Upholds.bind (event_signs h₁ (Signs.signed h₁.callers (requestEvent_signed u₁.state)))
  intro _ u₂ h₂ _
  apply Upholds.bind (h₂.pass (still_lenient.readClock u₂))
  intro t u₃ h₃ _
  apply Upholds.bind (h₃.assign rfl rfl)
  intro _ u₄ h₄ _
  exact Upholds.pure h₄ trivial

theorem power_turns (action : PowerAction) (actor requestId : Bytes) (w : World) :
    Upholds (Turns { w.state.callers with job := ⟨actor, requestId⟩ } w)
      (power action actor requestId) w fun _ _ => True := by
  apply Upholds.bind (Turns.quiet (Still.refl w) (still_lenient.idle w))
  intro _ w₁ _ h₁
  apply Upholds.bind (Turns.quiet h₁ (Within.require Still.refl _ _ w₁))
  intro _ w₂ _ h₂
  apply Upholds.bind (Turns.quiet h₂ (still_lenient.randomId w₂))
  intro id w₃ _ h₃
  exact acceptJob_turns false actor requestId h₃

theorem resetDevice_turns (confirmed : Bool) (actor requestId : Bytes) (w : World) :
    Upholds (Turns { w.state.callers with job := ⟨actor, requestId⟩ } w)
      (resetDevice S confirmed actor requestId) w fun _ _ => True := by
  have hlast : ∀ {u : World}, Still w u → Upholds
      (Turns { w.state.callers with job := ⟨actor, requestId⟩ } w)
      (randomId >>= fun id => acceptJob ⟨id, .deviceReset, .accepted⟩ true actor requestId) u
      fun _ _ => True := by
    intro u hu
    apply Upholds.bind (Turns.quiet hu (still_lenient.randomId u))
    intro id w₁ _ h₁
    exact acceptJob_turns true actor requestId h₁
  apply Upholds.bind (Turns.quiet (Still.refl w) (Within.require Still.refl _ _ w))
  intro _ w₁ _ h₁
  apply Upholds.bind (Turns.quiet h₁ (still_lenient.idle w₁))
  intro _ w₂ _ h₂
  dsimp only
  split
  · apply Upholds.bind (Turns.quiet h₂ (still_lenient.storageStatus _ w₂))
    rintro ⟨factoryReset, _⟩ w₃ _ h₃
    apply Upholds.bind (Turns.quiet h₃ (Within.require Still.refl _ _ w₃))
    intro _ w₄ _ h₄
    exact hlast h₄
  · exact hlast h₂

/-- The reset clears the transaction with its caller. -/
theorem bootstrapReset_turns (w : World) :
    Upholds (Turns { w.state.callers with network := { actor := ascii "system" } } w)
      (bootstrapReset S) w fun _ w' =>
        Switched { w.state.callers with network := { actor := ascii "system" } } w w' := by
  have hall : ∀ (paths : List Bytes) {u : World}, Within Still (each (durableRemove S) paths) u := by
    intro paths
    induction paths with
    | nil => exact fun {u} => Still.refl u
    | cons p paths ih => exact fun {u} => Within.bind Still.trans (durableRemove_still p u) fun _ _ _ => ih
  have herase : ∀ {u : World}, Still w u →
      Upholds (Turns { w.state.callers with network := { actor := ascii "system" } } w)
        (bootstrapErase S) u fun _ w' =>
          Switched { w.state.callers with network := { actor := ascii "system" } } w w' := by
    intro u hu
    apply Upholds.bind (Turns.quiet hu (hall _))
    intro _ w₁ _ h₁
    apply Upholds.bind (Turns.switch h₁ rfl (by rw [← h₁.state]; rfl))
    intro _ w₂ _ h₂
    refine Switched.run ?_ h₂
    intro v u hu
    apply Upholds.bind (bootPolicy_signs hu)
    intro _ u₁ h₁ _
    apply Upholds.bind (h₁.assign rfl rfl)
    intro _ u₂ h₂ _
    apply Upholds.bind (h₂.pass (persist_still u₂))
    intro _ u₃ h₃ _
    apply Upholds.get
    exact event_signs h₃ (Signs.signed h₃.callers (completedEvent_signed u₃.state))
  unfold bootstrapReset
  split
  · apply Upholds.bind (Turns.quiet (Still.refl w) (still_lenient.storageStatus _ w))
    rintro ⟨_, prepared⟩ w₁ _ h₁
    apply Upholds.bind (Turns.quiet h₁ (Within.require Still.refl _ _ w₁))
    intro _ w₂ _ h₂
    exact herase h₂
  · exact herase (Still.refl w)

theorem bootstrapInitial_signs (b : BootPreferences) (h : Signs w₀ w) :
    Upholds (Signs w₀) (bootstrapInitial b) w fun _ _ => True := by
  apply Upholds.bind (h.assign rfl rfl)
  intro _ w₁ h₁ _
  apply Upholds.bind (bootPolicy_signs h₁)
  intro _ w₂ h₂ _
  apply Upholds.bind (h₂.assign rfl rfl)
  intro _ w₃ h₃ _
  exact h₃.pass (persist_still w₃)

theorem bootstrapHostname_signs (b : BootPreferences) (h : Signs w₀ w) :
    Upholds (Signs w₀) (bootstrapHostname b) w fun _ _ => True := by
  apply Upholds.bind (h.assign rfl rfl)
  intro _ w₁ h₁ _
  apply Upholds.bind (h₁.pass (platformCall_still _ w₁))
  intro _ w₂ h₂ _
  exact h₂.pass (persist_still w₂)

/-- The caller of the job stays on record. -/
theorem bootstrap_turns (w : World) :
    ∃ c, c.job = w.state.callers.job ∧ Upholds (Turns c w) (bootstrap S) w fun _ _ => True := by
  have hbranch : ∃ c, c.job = w.state.callers.job ∧
      Upholds (Turns c w) (bootstrapBranch S) w fun _ w' => Switched c w w' := by
    by_cases hr : w.state.resetIntent = true
    · refine ⟨{ w.state.callers with network := { actor := ascii "system" } }, rfl, Upholds.get ?_⟩
      rw [if_pos hr]
      exact bootstrapReset_turns w
    · refine ⟨w.state.callers, rfl, Upholds.get ?_⟩
      rw [if_neg hr]
      refine Switched.run ?_ (Signs.refl w).switched
      intro v u hu
      split
      · apply Upholds.bind (recoverNetwork_signs true hu)
        intro _ u₁ h₁ _
        exact bootPolicy_signs h₁
      · split
        · rename_i b _
          exact bootstrapInitial_signs b hu
        · exact hu.pass (platformCall_still _ u)
  obtain ⟨c, hjob, hc⟩ := hbranch
  refine ⟨c, hjob, ?_⟩
  rw [bootstrap_eq]
  apply Upholds.bind hc
  intro _ w₁ _ h₁
  refine (Switched.run ?_ h₁).mono fun _ _ _ _ => trivial
  intro v u hu
  split
  · exact bootstrapHostname_signs _ hu
  · exact Upholds.pure hu trivial

/-- What a call of the service emits is signed by its own caller where it brings one in, and
otherwise by the callers on record. -/
theorem call_turns {op : Op} (hb : op.boots = false) (w : World) :
    Upholds (Turns (w.state.callers.after op) w) (call S op) w fun _ _ => True := by
  have done : ∀ {γ : Type} {m : Prog γ} {f : γ → Reply} {c : Callers},
      Upholds (Turns c w) m w (fun _ _ => True) →
      Upholds (Turns c w) (m >>= fun a => pure (f a)) w fun _ _ => True := by
    intro γ m f c h
    apply Upholds.bind h
    intro a w' hw' _
    exact Upholds.pure hw' trivial
  have same : ∀ {γ : Type} {m : Prog γ},
      (∀ w₁ w, Signs w₁ w → Upholds (Signs w₁) m w fun _ _ => True) →
      Upholds (Turns w.state.callers w) m w fun _ _ => True := by
    intro γ m hm
    exact (Switched.run hm (Signs.refl w).switched).mono fun _ _ _ _ => trivial
  cases op with
  | bootstrap => simp [Op.boots] at hb
  | start => exact done (same fun _ _ => start_signs)
  | tick => exact done (same fun _ _ => tick_signs)
  | apply config => exact done (same fun _ _ => apply_signs config)
  | beginNetwork p actor requestId => exact done (beginNetwork_turns p actor requestId w)
  | networkTransaction => exact done (same fun _ _ => networkTransaction_signs)
  | prepareNetworkCommit id => exact done (same fun _ _ => prepareNetworkCommit_signs id)
  | finishNetwork id commit actor requestId =>
    exact done (finishNetwork_turns id commit actor requestId w)
  | power action actor requestId => exact done (power_turns action actor requestId w)
  | resetDevice confirmed actor requestId => exact done (resetDevice_turns confirmed actor requestId w)

end Backend

/-! ### Steps of the service -/

theorem Turns.still (h : Turns c w₀ w) (hs : Still w w') : Turns c w₀ w' := by
  obtain h | ⟨w₁, he, hc, hw⟩ := h
  · exact .inl (Still.trans _ _ _ h hs)
  · exact .inr ⟨w₁, he, hc, hw.still hs⟩

theorem Turns.since (hs : Still w₀ w) (h : Turns c w w') : Turns c w₀ w' := by
  obtain h | ⟨w₁, he, hc, hw⟩ := h
  · exact .inl (Still.trans _ _ _ hs h)
  · exact .inr ⟨w₁, he.trans hs.events, hc, hw⟩

theorem Turns.callers (h : Turns c w₀ w) : w.state.callers = w₀.state.callers ∨ w.state.callers = c := by
  obtain h | ⟨w₁, _, hc, hw⟩ := h
  · rw [h.state]
    exact .inl rfl
  · exact .inr (hw.callers.trans hc)

/-- The new events are signed by `c`. -/
theorem Turns.signed (h : Turns c w₀ w) {new : List UserEvent} (hn : w.events = w₀.events ++ new) :
    ∀ e ∈ new, Signed c e := by
  obtain h | ⟨w₁, he, hc, hw⟩ := h
  · rw [h.events] at hn
    have hempty : new = [] := by simpa using hn
    simp [hempty]
  · obtain ⟨new', hn', hs⟩ := hw.events
    rw [hn', he] at hn
    rw [← List.append_cancel_left hn, ← hc]
    exact hs

/-- The new events are signed by the callers that are on record at the end. -/
def Attested (w w' : World) : Prop :=
  ∃ new, w'.events = w.events ++ new ∧ ∀ e ∈ new, Signed w'.state.callers e

theorem Turns.attested (h : Turns c w₀ w) : Attested w₀ w := by
  obtain h | ⟨w₁, he, hc, hw⟩ := h
  · exact ⟨[], by simp [h.events], by simp⟩
  · obtain ⟨new, hn, hs⟩ := hw.events
    refine ⟨new, by rw [hn, he], ?_⟩
    rw [hw.callers]
    exact hs

theorem perform_turns {op : Op} {script : List Choice}
    (h : Upholds (Turns c (entered op script w)) (Backend.call S op) (entered op script w)
      fun _ _ => True) : Turns c w (perform S op script w).2 := by
  have hg : Upholds (Turns c (entered op script w)) (guarded S op) (entered op script w)
      fun _ _ => True := by
    apply Upholds.bind h
    intro r w₁ h₁ _
    have hc : Within Still checkpoint w₁ := still_lenient.effect (fun _ _ => ⟨rfl, rfl⟩) w₁
    exact Upholds.bind ⟨h₁.still hc, fun _ _ _ => trivial⟩ fun _ w₂ h₂ (_ : True) =>
      Upholds.pure h₂ trivial
  have ha := perform_world (S := S) op script w
  have hs : Still w (entered op script w) := ⟨rfl, rfl⟩
  exact (hg.kept.since hs).still ⟨ha.state, ha.events⟩

theorem drainAll_still (cs : List Choice) (w : World) : Still w (drainAll cs w) := by
  induction cs generalizing w with
  | nil => exact Still.refl w
  | cons choice cs ih =>
    have hc : Still w (if choice.crash then { w with alive := false } else w.authority choice.writes) := by
      split
      · exact ⟨rfl, rfl⟩
      · have ha := authority_agree choice.writes w
        exact ⟨ha.state, ha.events⟩
    exact Still.trans _ _ _ hc (ih _)

theorem drain_still (w : World) : Still w w.drain := by
  have h := drainAll_still w.script { w with script := [] }
  exact ⟨h.state, h.events⟩

/-- A request under its own caller. -/
theorem request_turns {r : Request} {op : Op} (h : D.authorize r = .ok (.call op))
    (script : List Choice) (w : World) :
    Turns (w.state.callers.after op) w (D.live w (.input (.request r script))) := by
  have ht : Turns (w.state.callers.after op) w (D.act w (.request r script)) := by
    by_cases ha : w.alive = true
    · rw [Daemon.act, if_pos ha, D.request_world h]
      exact perform_turns (Backend.call_turns (authorize_boots h).1 _)
    · rw [Daemon.act, if_neg ha]
      exact .inl ⟨rfl, rfl⟩
  exact ht.still (drain_still _)

theorem answer_still (q : Query) (w : World) : Within Still (Daemon.answer q) w := by
  unfold Daemon.answer
  split
  · exact Still.refl w
  · apply still_lenient.effect
    intro choice w
    split
    · exact ⟨rfl, rfl⟩
    · exact ⟨rfl, rfl⟩

/-- Any other input acts under the callers on record. -/
theorem input_turns (i : Input) (w : World) :
    Turns w.state.callers w (D.live w (.input i)) ∨
      ∃ r script op, i = .request r script ∧ D.authorize r = .ok (.call op) := by
  have hticks : ∀ script, Turns w.state.callers w
      (Backend.tick D.site (entered .networkTransaction script w)).2 := by
    intro script
    have hk := (Backend.tick_signs (S := D.site) (Signs.refl (entered .networkTransaction script w))).kept
    exact Turns.since ⟨rfl, rfl⟩ (.inr hk.switched)
  have hperform : ∀ script, Turns w.state.callers w (perform D.site .tick script w).2 := by
    intro script
    have hb : Op.boots .tick = false := rfl
    exact perform_turns (Backend.call_turns hb (entered .tick script w))
  have hdrain : ∀ {u : World}, Turns w.state.callers w u → Turns w.state.callers w u.drain :=
    fun h => h.still (drain_still _)
  have hacts := D.acts w i
  change Turns w.state.callers w (D.act w i).drain ∨ _
  generalize D.act w i = w' at hacts ⊢
  cases hacts with
  | idle _ => exact .inl (hdrain (.inl ⟨rfl, rfl⟩))
  | query r script q _ =>
    have hq := answer_still q { w with script := script }
    exact .inl (hdrain (.inl (Still.trans _ { w with script := script } _ ⟨rfl, rfl⟩ hq)))
  | call r script op ha hop => exact .inr ⟨r, script, op, rfl, hop⟩
  | tick script ha => exact .inl (hdrain (hperform script))
  | tickStops script ha => exact .inl (hdrain ((hperform script).still ⟨rfl, rfl⟩))
  | swallow script ha => exact .inl (hdrain (hticks script))
  | swallowStops script ha => exact .inl (hdrain ((hticks script).still ⟨rfl, rfl⟩))
  | status file => exact .inl (hdrain (.inl ⟨rfl, rfl⟩))

/-- A new process reads the callers from the journal and emits nothing. -/
theorem restart_events (built : List Choice) (w : World) :
    (step S w (.restart built)).events = w.events := by
  change (Backend.construct S { w with alive := false, script := built }).2.events = w.events
  have hd := draw_rest { w with alive := false, script := built }
  rw [Backend.construct, effect_apply]
  split
  · exact hd
  · rw [(authority_agree _ _).events]
    split
    · exact hd
    · exact hd

/-- A process that came up has the callers of the journal on record. -/
theorem restart_callers {built : List Choice} {s : State} (hj : w.journal = some s)
    (ha : (step S w (.restart built)).alive = true) : (step S w (.restart built)).state.callers = s.callers := by
  have hcore := draw_core { w with alive := false, script := built }
  change (Backend.construct S { w with alive := false, script := built }).2.alive = true at ha
  change (Backend.construct S { w with alive := false, script := built }).2.state.callers = s.callers
  rw [Backend.construct, effect_apply] at ha ⊢
  split at ha
  · cases ha
  · rename_i hcrash
    rw [if_neg hcrash]
    rw [(authority_frame _ _).alive] at ha
    rw [(authority_agree _ _).state]
    split at ha
    · rw [congrArg Core.alive hcore] at ha
      cases ha
    · rename_i hfails
      rw [if_neg hfails]
      have hjournal := congrArg Core.journal hcore
      show (Backend.loaded S.profile _).callers = s.callers
      rw [hjournal]
      show (Backend.loaded S.profile w.journal).callers = s.callers
      rw [hj]
      unfold Backend.loaded Backend.migrate
      split
      · rfl
      · rfl

theorem Attested.since (hs : w.events = w₀.events) (h : Attested w w') : Attested w₀ w' := by
  obtain ⟨new, hn, he⟩ := h
  exact ⟨new, by rw [hn, hs], he⟩

/-- The first call of a process. -/
theorem bootstrapProcess_turns (built script : List Choice) (w : World) :
    let w₁ := step D.site w (.restart built)
    (w₁.alive = false ∧ D.bootstrapProcess built script w = w₁) ∨
      (w₁.alive = true ∧ ∃ c, c.job = w₁.state.callers.job ∧ Turns c w₁ (D.bootstrapProcess built script w)) := by
  intro w₁
  have hrun : D.bootstrapProcess built script w =
      if w₁.alive then { (perform D.site .bootstrap script w₁).2 with alive := false } else w₁ := rfl
  rw [hrun]
  cases halive : w₁.alive with
  | false => exact .inl ⟨rfl, rfl⟩
  | true =>
    obtain ⟨c, hjob, hc⟩ := Backend.bootstrap_turns (S := D.site) (entered .bootstrap script w₁)
    have hp : Turns c w₁ (perform D.site .bootstrap script w₁).2 := by
      apply perform_turns
      apply Upholds.bind hc
      intro _ w₂ h₂ _
      exact Upholds.pure h₂ trivial
    exact .inr ⟨rfl, c, hjob, hp.still ⟨rfl, rfl⟩⟩

theorem launchProcess_turns (built script : List Choice) (w : World) :
    let w₁ := step D.site w (.restart built)
    (w₁.alive = false ∧ D.launchProcess built script w = w₁) ∨
      (w₁.alive = true ∧ Turns w₁.state.callers w₁ (D.launchProcess built script w)) := by
  intro w₁
  unfold Daemon.launchProcess
  dsimp only
  split
  · rename_i halive
    have hb : Op.boots .start = false := rfl
    have hp := perform_turns (Backend.call_turns (S := D.site) hb (entered .start script w₁))
    refine .inr ⟨halive, ?_⟩
    rcases hr : perform D.site .start script (step D.site w (.restart built)) with ⟨o, w'⟩
    rw [show perform D.site .start script w₁ = (o, w') from hr] at hp
    cases o with
    | ret r => exact hp
    | raise e => exact hp.still ⟨rfl, rfl⟩
    | crash => exact hp
  · rename_i halive
    exact .inl ⟨Bool.eq_false_of_not_eq_true halive, rfl⟩

theorem live_attested (l : Life) (w : World) : Attested w (D.live w l) := by
  cases l with
  | bootstrap built script =>
    apply Attested.since (restart_events (S := D.site) built w)
    change Attested _ (D.bootstrapProcess built script w)
    obtain ⟨_, hrun⟩ | ⟨_, c, -, hc⟩ := bootstrapProcess_turns (D := D) built script w
    · rw [hrun]
      exact ⟨[], by simp, by simp⟩
    · exact hc.attested
  | launch built script =>
    apply Attested.since (restart_events (S := D.site) built w)
    change Attested _ (D.launchProcess built script w)
    obtain ⟨_, hrun⟩ | ⟨_, hc⟩ := launchProcess_turns (D := D) built script w
    · rw [hrun]
      exact ⟨[], by simp, by simp⟩
    · exact hc.attested
  | stop => exact ⟨[], by simp [Daemon.live], by simp⟩
  | input i =>
    obtain h | ⟨r, script, op, rfl, ha⟩ := input_turns (D := D) i w
    · exact h.attested
    · exact (request_turns ha script w).attested

/-- What a new process says of a job it says in the name of the caller in the journal: that a reset has been
completed, or that an operation was interrupted. -/
theorem restarted_signed {l : Life} {built script : List Choice} (hl : l = .bootstrap built script ∨ l = .launch built script)
    {s : State} (hj : w.journal = some s) :
    ∃ new, (D.live w l).events = w.events ++ new ∧ ∀ e ∈ new, e.concern = .job → e.signature = s.callers.job := by
  have hquiet := restart_events (S := D.site) built w
  have hturns : ∀ c : Callers, c.job = s.callers.job → Turns c (step D.site w (.restart built)) (D.live w l) →
      ∃ new, (D.live w l).events = w.events ++ new ∧ ∀ e ∈ new, e.concern = .job → e.signature = s.callers.job := by
    intro c hc h
    obtain ⟨new, hnew, -⟩ := h.attested
    refine ⟨new, by rw [hnew, hquiet], ?_⟩
    intro e he hconcern
    have hsigned : e.signature = c.signs e.concern := h.signed hnew e he
    rw [hsigned, hconcern]
    exact hc
  have hnone : D.live w l = step D.site w (.restart built) →
      ∃ new, (D.live w l).events = w.events ++ new ∧ ∀ e ∈ new, e.concern = .job → e.signature = s.callers.job := by
    intro h
    exact ⟨[], by rw [h, hquiet, List.append_nil], by simp⟩
  rcases hl with rfl | rfl
  · obtain ⟨_, hrun⟩ | ⟨halive, c, hc, h⟩ := bootstrapProcess_turns (D := D) built script w
    · exact hnone hrun
    · exact hturns c (hc.trans (congrArg Callers.job (restart_callers hj halive))) h
  · obtain ⟨_, hrun⟩ | ⟨halive, h⟩ := launchProcess_turns (D := D) built script w
    · exact hnone hrun
    · exact hturns _ (congrArg Callers.job (restart_callers hj halive)) h

/-! ### The identity that is passed on -/

theorem decimalBefore_digits (digits n : ℕ) {text : Bytes}
    (h : ∀ c ∈ text, 32 ≤ c.toNat ∧ c.toNat ≠ 127) :
    (decimalBefore digits n text).length ≤ digits + text.length ∧
      ∀ c ∈ decimalBefore digits n text, 32 ≤ c.toNat ∧ c.toNat ≠ 127 := by
  induction digits generalizing n text with
  | zero => exact ⟨by simp [decimalBefore], h⟩
  | succ digits ih =>
    have hdigit : (UInt8.ofNat (48 + n % 10)).toNat = 48 + n % 10 := by
      rw [UInt8.toNat_ofNat']
      omega
    have hnext : ∀ c ∈ UInt8.ofNat (48 + n % 10) :: text, 32 ≤ c.toNat ∧ c.toNat ≠ 127 := by
      intro c hc
      obtain rfl | hc := List.mem_cons.mp hc
      · rw [hdigit]
        omega
      · exact h c hc
    rw [decimalBefore]
    split
    · refine ⟨?_, hnext⟩
      rw [List.length_cons]
      omega
    · have hrec := ih (n / 10) hnext
      rw [List.length_cons] at hrec
      exact ⟨by omega, hrec.2⟩

theorem untrusted_safe (peer : UInt32) : safeText (untrusted peer).actor 256 = true := by
  have hempty : ∀ c ∈ ([] : Bytes), 32 ≤ c.toNat ∧ c.toNat ≠ 127 := by simp
  have hd := decimalBefore_digits 20 peer.toNat hempty
  have huid : ∀ c ∈ ascii "uid:", 32 ≤ c.toNat ∧ c.toNat ≠ 127 := by decide +kernel
  apply safeText_of
  · have hl : (untrusted peer).actor.length = 4 + (decimal peer.toNat).length := by
      simp [untrusted, ascii, decimal]
      omega
    have hten : (decimal peer.toNat).length ≤ 20 := hd.1
    omega
  · intro c hc
    rcases List.mem_append.mp hc with hc | hc
    · exact huid c hc
    · exact hd.2 c hc

/-- Whatever the message says, the identity that is passed on keeps the limits of the public log. -/
theorem trustedAuditContext_safe (value : AuditContext) (peer : UInt32) (trusted : Option UInt32) :
    safeText (trustedAuditContext value peer trusted).actor 256 = true ∧
      safeText (trustedAuditContext value peer trusted).requestId 128 = true := by
  unfold trustedAuditContext
  split
  · dsimp only
    refine ⟨?_, ?_⟩
    · split
      · decide
      · rename_i h
        simp only [Bool.or_eq_true, Bool.not_eq_true', not_or, Bool.not_eq_false] at h
        exact h.2
    · split
      · rename_i h
        exact h
      · rfl
  · exact ⟨untrusted_safe peer, rfl⟩

/-- The limits of the public log. -/
def auditLimits : Limits where
  network actor requestId := safeText actor 256 = true ∧ safeText requestId 128 = true
  job actor requestId := safeText actor 256 = true ∧ safeText requestId 128 = true
  event e := validUserEvent e = true
  checked := False

/-- The texts of a job event are valid when the job has an action. -/
theorem jobEvent_valid {s : State} {priority : Priority} {code message outcome : Bytes}
    (hc : auditLimits.job s.jobActor s.jobRequestId) (ha : s.job.action ≠ .none)
    (ht : (identifier code && identifier outcome && !message.isEmpty && safeText message 512) = true) :
    validUserEvent (Backend.jobEvent s priority code message outcome) = true := by
  simp only [Bool.and_eq_true] at ht
  obtain ⟨⟨⟨hcode, hout⟩, hempty⟩, hmessage⟩ := ht
  have haction : identifier s.job.action.text = true := by
    cases hj : s.job.action with
    | none => exact absurd hj ha
    | reboot => decide
    | shutdown => decide
    | deviceReset => decide
  have hcategory : categories.contains (ascii "administration") = true := by decide
  have hsubject : safeText (ascii "device") 256 = true := by decide
  apply validUserEvent_of _ hc.1 hsubject hc.2
  simp only [validUserEvent, Backend.jobEvent]
  rw [hcode, haction, hout, hcategory, hempty, hmessage]
  rfl

theorem audit_surroundings (hnames : ∀ n ∈ S.profile.interfaces, validInterfaceName n = true) :
    Surroundings S auditLimits where
  sound h := absurd h id
  booted h := absurd h id
  id := trivial
  network := ⟨by decide, rfl⟩
  job := ⟨by decide, rfl⟩
  reset h := absurd h id
  settle s commit reason h := by
    have hsubject : safeText (ascii "network") 256 = true := by decide
    apply validUserEvent_of _ h.1 hsubject h.2
    show validUserEvent { Backend.settleEvent {} commit reason with
      actor := [], subject := [], requestId := [] } = true
    cases commit <;> cases reason <;> decide
  pending s h := by
    have hsubject : safeText (ascii "network") 256 = true := by decide
    apply validUserEvent_of _ h.1 hsubject h.2
    show validUserEvent { Backend.pendingEvent {} with actor := [], subject := [], requestId := [] } = true
    decide
  requested s hc ha := by
    show validUserEvent (Backend.requestEvent s) = true
    unfold Backend.requestEvent
    split
    · exact jobEvent_valid hc ha (by decide)
    · exact jobEvent_valid hc ha (by decide)
  interrupted s hc ha := jobEvent_valid hc ha (by decide)
  dispatched s hc ha := jobEvent_valid hc ha (by decide)
  failed s hc ha := jobEvent_valid hc ha (by decide)
  completed s hc := by
    have hsubject : safeText (ascii "device") 256 = true := by decide
    apply validUserEvent_of _ hc.1 hsubject hc.2
    show validUserEvent { completedEvent {} with actor := [], subject := [], requestId := [] } = true
    decide
  link l hl := by
    obtain ⟨hlen, hplain⟩ := interfaceName_plain (hnames _ hl)
    have hsafe : safeText l.interface 256 = true := by
      apply safeText_of (by omega)
      intro c hc
      have hr := hplain c hc
      omega
    have hactor : safeText (ascii "system") 256 = true := by decide
    apply validUserEvent_of _ hactor hsafe rfl
    show validUserEvent { Backend.linkEvent { interface := [], carrier := l.carrier } with
      actor := [], subject := [], requestId := [] } = true
    cases l.carrier <;> decide

/-- Every request that reaches the Backend carries an identity within the limits. -/
theorem authorize_grants {r : Request} {op : Op} (h : D.authorize r = .ok (.call op)) :
    auditLimits.grants op := by
  obtain ⟨uid, json, -, -, -, hd⟩ := authorize_ok h
  generalize r.member = name at hd
  cases dispatch_dispatches hd with
  | begin p value _ => exact trustedAuditContext_safe ..
  | finish id commit value _ => exact trustedAuditContext_safe ..
  | power action value _ => exact trustedAuditContext_safe ..
  | reset confirmed value _ => exact trustedAuditContext_safe ..
  | _ => trivial

theorem audit_within (l : Life) : l.Within D auditLimits := by
  cases l with
  | bootstrap built script => exact ⟨fun _ _ => trivial, fun _ _ => trivial⟩
  | launch built script => exact ⟨fun _ _ => trivial, fun _ _ => trivial⟩
  | stop => trivial
  | input i => exact ⟨fun _ _ => trivial, fun r script op _ h => authorize_grants h⟩

/-! ### No event is lost -/

/-- What the caller of an operation is on record for, and the account whose word is taken. -/
def Op.concern : Op → Concern
  | .beginNetwork _ _ _ | .finishNetwork _ _ _ _ => .network
  | .power _ _ _ | .resetDevice _ _ _ => .job
  | _ => .link

def Daemon.trusted (D : Daemon) : Concern → Option UInt32
  | .network => D.settingsUid
  | .job => D.controlUid
  | .link => none

theorem after_of_link {op : Op} (h : op.concern = .link) (c : Callers) : c.after op = c := by
  cases op with
  | beginNetwork p actor requestId => simp [Op.concern] at h
  | finishNetwork id commit actor requestId => simp [Op.concern] at h
  | power action actor requestId => simp [Op.concern] at h
  | resetDevice confirmed actor requestId => simp [Op.concern] at h
  | _ => rfl

/-- The caller of a peer whose word is not taken. -/
theorem authorize_untrusted {r : Request} {op : Op} {uid : UInt32} (hp : r.peer = .ok uid)
    (h : D.authorize r = .ok (.call op)) (hl : op.concern ≠ .link)
    (ht : D.trusted op.concern ≠ some uid) (c : Callers) :
    (c.after op).signs op.concern = untrusted uid := by
  have hcontext : ∀ {t : Option UInt32} (value : AuditContext), t ≠ some uid →
      trustedAuditContext value uid t = untrusted uid := by
    intro t value h
    rw [trustedAuditContext, if_neg h]
  obtain ⟨uid', json, hp', -, -, hd⟩ := authorize_ok h
  rw [hp] at hp'
  injection hp' with hp'
  subst hp'
  generalize r.member = name at hd
  cases dispatch_dispatches hd with
  | begin p value _ => exact hcontext value ht
  | finish id commit value _ => exact hcontext value ht
  | power action value _ => exact hcontext value ht
  | reset confirmed value _ => exact hcontext value ht
  | _ => exact absurd rfl hl

/-- Over the whole life of a service with valid interface names, every audit event passes the
validation of the public log and so reaches its sink. Each is signed by the callers on record,
only a request that carries a caller changes these, a new process signs for a job with the caller
in the journal, and what a request of another peer than the configured account says of itself is
replaced by its uid. -/
theorem audit_events_delivered (D : Daemon)
    (hnames : ∀ n ∈ D.site.profile.interfaces, validInterfaceName n = true)
    (settings : Option Bytes) (tree : List Bytes) (status : StatusFile) (ls : List Life) :
    let w := D.lives (fresh settings tree status) ls
    let component := ascii "system-manager"
    let module := ascii "operations"
    (∀ e ∈ w.events, validUserEvent e = true) ∧
    w.events.filterMap (userLogWrite component module) = w.events.map (record component module) ∧
    (∀ l, Attested w (D.live w l)) ∧
    (∀ i, (∀ r script op, i = .request r script → D.authorize r = .ok (.call op) → op.concern = .link) →
      (D.live w (.input i)).state.callers = w.state.callers) ∧
    (∀ l built script s, l = .bootstrap built script ∨ l = .launch built script → w.journal = some s →
      ∃ new, (D.live w l).events = w.events ++ new ∧ ∀ e ∈ new, e.concern = .job → e.signature = s.callers.job) ∧
    ∀ r script uid op, r.peer = .ok uid → D.authorize r = .ok (.call op) → op.concern ≠ .link →
      D.trusted op.concern ≠ some uid →
      let w' := D.live w (.input (.request r script))
      (w'.state.callers = w.state.callers ∨ w'.state.callers.signs op.concern = untrusted uid) ∧
      ∃ new, w'.events = w.events ++ new ∧ ∀ e ∈ new, e.concern = op.concern →
        e.actor = ascii "uid:" ++ decimal uid.toNat ∧ e.requestId = [] := by
  intro w component module
  have hs := audit_surroundings (S := D.site) hnames
  have hbooted : ¬auditLimits.booted := fun h => h
  have hw : Sustained D.site auditLimits w :=
    lives_sustained hs (fun l _ => audit_within l) (fresh_sustained settings tree status hbooted)
  have hvalid : ∀ e ∈ w.events, validUserEvent e = true := hw.durable.events
  refine ⟨hvalid, write_all component module hvalid, fun l => live_attested l w, ?_,
    fun _ _ _ _ hl hj => restarted_signed hl hj, ?_⟩
  · intro i hi
    obtain h | ⟨r, script, op, rfl, ha⟩ := input_turns (D := D) i w
    · obtain h | h := h.callers
      · exact h
      · exact h
    · have ht := (request_turns ha script w).callers
      rw [after_of_link (hi r script op rfl ha)] at ht
      obtain h | h := ht
      · exact h
      · exact h
  · intro r script uid op hp ha hl ht w'
    have hturn := request_turns ha script w
    have hsign := authorize_untrusted hp ha hl ht w.state.callers
    obtain ⟨new, hn, -⟩ := hturn.attested
    refine ⟨?_, new, hn, ?_⟩
    · obtain h | h := hturn.callers
      · exact .inl h
      · right
        rw [h]
        exact hsign
    · intro e he hc
      have hes : e.signature = (w.state.callers.after op).signs e.concern := hturn.signed hn e he
      rw [hc, hsign] at hes
      injection hes with hactor hrequest
      exact ⟨hactor, hrequest⟩

namespace Fixture

/-- A request for a reboot in the name of someone else. -/
def forgedText : Bytes :=
  ascii "\x7b\"action\":\"reboot\",\"audit_context\":\x7b\"actor\":\"admin\",\"request_id\":\"7\"\x7d\x7d"

def watched : Daemon where
  site := { site with profile := { site.profile with interfaces := [ascii "end0"] } }
  settingsUid := some 100
  controlUid := some 200
  read := { codec with power := fun text =>
    if text = forgedText then .ok (.reboot, ⟨ascii "admin", ascii "7"⟩) else unexpected }

def carrierAt (t : ℕ) (carrier : Bool) : Life :=
  .input (.tick [{ time := t }, { time := t }, { links := [⟨ascii "end0", carrier⟩] }])

/-- The link is lost, then root asks for the reboot. -/
def lost : List Life :=
  [.launch [] [{ config := config }], carrierAt 1000 true, carrierAt 3000 false]

def forged : Request := ⟨.ok 0, ascii "Power", some forgedText⟩

end Fixture

theorem audit_events_delivered_forged :
    ((watched.lives device lost).events.map UserEvent.code = [ascii "network_down"] ∧
      ∀ e ∈ (watched.lives device lost).events, validUserEvent e = true) ∧
    (let w' := watched.live (watched.lives device lost) (.input (.request forged [{ id := Fixture.id }]))
     w'.events.map UserEvent.code = [ascii "network_down", ascii "power_requested"] ∧
       w'.events.map UserEvent.actor = [ascii "system", ascii "uid:0"] ∧
       ∃ new, w'.events = (watched.lives device lost).events ++ new ∧ ∀ e ∈ new, e.concern = .job →
         e.actor = ascii "uid:" ++ decimal 0 ∧ e.requestId = []) := by
  have hnames : ∀ n ∈ watched.site.profile.interfaces, validInterfaceName n = true := by decide +kernel
  have h := audit_events_delivered watched hnames (some previous) [] .missing lost
  have hrun : (watched.lives device lost).events.map UserEvent.code = [ascii "network_down"] ∧
      (watched.live (watched.lives device lost)
        (.input (.request forged [{ id := Fixture.id }]))).events.map UserEvent.code =
          [ascii "network_down", ascii "power_requested"] ∧
      (watched.live (watched.lives device lost)
        (.input (.request forged [{ id := Fixture.id }]))).events.map UserEvent.actor =
          [ascii "system", ascii "uid:0"] := by decide +kernel
  have hreq : watched.authorize forged = .ok (.call (.power .reboot (ascii "uid:0") [])) := by
    decide +kernel
  have hpeer := h.2.2.2.2.2 forged [{ id := Fixture.id }] 0 _ rfl hreq (by decide) (by decide)
  exact ⟨⟨hrun.1, h.1⟩, hrun.2.1, hrun.2.2, hpeer.2⟩

end Monutchee.System
