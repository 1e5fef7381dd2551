import Monutchee.System.Refinement

/-!
# Well-formed states

The configuration, the transaction and the job of the Backend are put together from many
sources: the defaults, the boot preferences, what the platform discovers, what callers apply
and propose, and what an earlier process left in the journal. `WellFormed` says what all of
them have in common, and this module shows that every call keeps it, in memory and in the
journal, however it ends. What the surroundings of a run promise (who asks, which ids the
random source gives, which audit events are fit) is a parameter.
-/

namespace Monutchee.System
open Lib Lib.Act Validation

/-! ### The invariant -/

/-- What holds of the callers, of the random ids and of the audit events of a run, whether the
configurations of the profile are valid, and whether the device has been booted. -/
structure Limits where
  network : Bytes → Bytes → Prop := fun _ _ => True
  job : Bytes → Bytes → Prop := fun _ _ => True
  id : Bytes → Prop := fun _ => True
  event : UserEvent → Prop := fun _ => True
  checked : Prop := True
  booted : Prop := False

def validHashOrEmpty (h : Bytes) : Prop := h = [] ∨ Backend.validHash h = true

def confirmation : Bytes := ascii "Confirm within 120 seconds to retain these addresses"

structure FitPending (L : Limits) (p : Pending) : Prop where
  network : L.checked → validateNetwork p.transaction.network = .ok ()
  previous : L.checked → validateNetwork p.previous = .ok ()
  message : p.transaction.message = [] ∨ p.transaction.message = confirmation
  id : L.id p.transaction.id
  previousHash : validHashOrEmpty p.previousHash
  candidateHash : validHashOrEmpty p.candidateHash
  remaining : p.transaction.remainingMs ≤ 120000
  deadline : p.deadline < 2^64
  caller : L.network p.actor p.requestId

/-- After the first boot the device is initialized and carries its managed name. -/
def Named (P : Profile) (s : State) : Prop :=
  s.initialized = true ∧
    ∀ b, P.bootPreferences = some b → s.configuration.system.hostname = b.managedHostname

structure WellFormed (P : Profile) (L : Limits) (s : State) : Prop where
  valid : L.checked → validate s.configuration = .ok ()
  pending : FitPending L s.pending
  jobId : L.id s.job.id
  jobCaller : L.job s.jobActor s.jobRequestId
  action : s.job.state = .accepted ∨ s.resetIntent = true → s.job.action ≠ .none
  named : L.booted → Named P s

/-- The part of the invariant that survives the process. -/
structure Durable (S : Site) (L : Limits) (w : World) : Prop where
  stored : ∀ d, w.journal = some d → WellFormed S.profile L d
  present : L.booted → w.journal.isSome = true
  events : ∀ e ∈ w.events, L.event e
  ids : ∀ c ∈ w.script, L.id c.id

structure Safe (S : Site) (L : Limits) (w : World) : Prop extends Durable S L w where
  memory : WellFormed S.profile L w.state
  armed : w.jobDeadline ≠ 0 → w.state.job.action ≠ .none

/-- What a profile must be for the invariant: the loaders establish it. -/
structure Sound (P : Profile) : Prop where
  defaults : validate P.defaults = .ok ()
  initial : ∀ b, P.bootPreferences = some b → validate b.initial = .ok ()
  factoryName : ∀ b, P.bootPreferences = some b → P.defaults.system.hostname = b.managedHostname

/-- The audit events of a job, each with its texts (storage.cpp:279-280, 316-317, 451-452, 480-487). -/
def interruptedEvent (s : State) : UserEvent :=
  Backend.jobEvent s .warning (ascii "system_operation_interrupted")
    (ascii "System operation interrupted") (ascii "interrupted")

def dispatchedEvent (s : State) : UserEvent :=
  Backend.jobEvent s .info (ascii "system_operation_dispatched")
    (ascii "System operation dispatched") (ascii "dispatched")

def failedEvent (s : State) : UserEvent :=
  Backend.jobEvent s .error (ascii "system_operation_failed")
    (ascii "System operation failed") (ascii "failed")

def completedEvent (s : State) : UserEvent :=
  { Backend.jobEvent s .info (ascii "device_reset_completed") (ascii "Device reset completed")
    (ascii "completed") with action := ascii "device_reset" }

/-- A job event that is fit when the job has an action. -/
def FitJob (L : Limits) (e : State → UserEvent) : Prop :=
  ∀ s, L.job s.jobActor s.jobRequestId → s.job.action ≠ .none → L.event (e s)

/-- What the surroundings promise. -/
structure Surroundings (S : Site) (L : Limits) : Prop where
  sound : L.checked → Sound S.profile
  booted : L.booted → L.checked
  id : L.id []
  network : L.network (ascii "system") []
  job : L.job (ascii "system") []
  reset : L.booted → ∀ p ∈ S.profile.resetPaths, inside p S.journalPath = false
  settle : ∀ s commit reason, L.network s.pending.actor s.pending.requestId →
    L.event (Backend.settleEvent s commit reason)
  pending : ∀ s, L.network s.pending.actor s.pending.requestId → L.event (Backend.pendingEvent s)
  requested : FitJob L Backend.requestEvent
  interrupted : FitJob L interruptedEvent
  dispatched : FitJob L dispatchedEvent
  failed : FitJob L failedEvent
  completed : ∀ s, L.job s.jobActor s.jobRequestId → L.event (completedEvent s)
  link : ∀ l, l.interface ∈ S.profile.interfaces → L.event (Backend.linkEvent l)

/-- What a call may bring in. -/
def Limits.grants (L : Limits) : Op → Prop
  | .beginNetwork _ actor requestId | .finishNetwork _ _ actor requestId => L.network actor requestId
  | .power _ actor requestId | .resetDevice _ actor requestId => L.job actor requestId
  | _ => True

variable {S : Site} {L : Limits} {w w' : World} {s : State}

/-! ### Assignments keep well-formed states -/

theorem validate_withNetwork {c : Configuration} {n : Network} (h : validate c = .ok ())
    (hn : validateNetwork n = .ok ()) : validate (Backend.withNetwork c n) = .ok () := by
  obtain ⟨hh, ht, -⟩ := validate_ok.mp h
  exact validate_ok.mpr ⟨hh, ht, hn⟩

theorem validate_network {c : Configuration} (h : validate c = .ok ()) :
    validateNetwork c.system.network = .ok () := (validate_ok.mp h).2.2

theorem validate_hostname {c : Configuration} {name : Bytes} (h : validate c = .ok ())
    (hn : validHostname name = true) :
    validate { c with system := { c.system with hostname := name } } = .ok () := by
  obtain ⟨-, ht, hnet⟩ := validate_ok.mp h
  exact validate_ok.mpr ⟨hn, ht, hnet⟩

theorem Sound.managed {P : Profile} (h : Sound P) {b : BootPreferences}
    (hb : P.bootPreferences = some b) : validHostname b.managedHostname = true := by
  rw [← h.factoryName b hb]
  exact (validate_ok.mp h.defaults).1

theorem fitPending_default (hs : Surroundings S L) : FitPending L {} :=
  ⟨fun _ => rfl, fun _ => rfl, .inl rfl, hs.id, .inl rfl, .inl rfl, Nat.zero_le _, by decide, hs.network⟩

namespace WellFormed
variable {P : Profile}

theorem next (h : WellFormed P L s) (hc : L.checked) (commit : Bool) :
    validateNetwork (s.next commit) = .ok () := by
  cases commit with
  | true => exact h.pending.network hc
  | false => exact h.pending.previous hc

theorem settle (h : WellFormed P L s) (commit : Bool) : WellFormed P L (s.settle commit) := by
  have hp := h.pending
  exact ⟨fun hc => validate_withNetwork (h.valid hc) (h.next hc commit),
    ⟨hp.network, hp.previous, hp.message, hp.id, hp.previousHash, hp.candidateHash,
      Nat.zero_le _, hp.deadline, hp.caller⟩,
    h.jobId, h.jobCaller, h.action, h.named⟩

theorem prepare (h : WellFormed P L s) {deadline : ℕ} (hd : deadline < 2^64) :
    WellFormed P L (s.prepare deadline) := by
  have hp := h.pending
  exact ⟨h.valid, ⟨hp.network, hp.previous, hp.message, hp.id, hp.previousHash, hp.candidateHash,
    hp.remaining, hd, hp.caller⟩, h.jobId, h.jobCaller, h.action, h.named⟩

theorem relabel (h : WellFormed P L s) {actor requestId : Bytes} (hc : L.network actor requestId) :
    WellFormed P L (s.relabel actor requestId) := by
  have hp := h.pending
  exact ⟨h.valid, ⟨hp.network, hp.previous, hp.message, hp.id, hp.previousHash, hp.candidateHash,
    hp.remaining, hp.deadline, hc⟩, h.jobId, h.jobCaller, h.action, h.named⟩

theorem configure (h : WellFormed P L s) {c : Configuration} (hc : validate c = .ok ())
    (hm : ∀ b, P.bootPreferences = some b → c.system.hostname = b.managedHostname) :
    WellFormed P L (s.configure c) :=
  ⟨fun _ => hc, h.pending, h.jobId, h.jobCaller, h.action, fun _ => ⟨rfl, hm⟩⟩

/-- Another configuration in the same state. -/
theorem replace (h : WellFormed P L s) {c : Configuration} (hc : L.checked → validate c = .ok ())
    (hn : L.booted → Named P { s with configuration := c }) :
    WellFormed P L { s with configuration := c } :=
  ⟨hc, h.pending, h.jobId, h.jobCaller, h.action, hn⟩

theorem setJob (h : WellFormed P L s) {state : JobState} (hs : state ≠ .accepted) :
    WellFormed P L (s.setJob state) := by
  refine ⟨h.valid, h.pending, h.jobId, h.jobCaller, ?_, h.named⟩
  intro ha
  obtain ha | hi := ha
  · exact absurd ha hs
  · exact h.action (.inr hi)

theorem setHostname (h : WellFormed P L s) {b : BootPreferences} (hs : L.checked → Sound P)
    (hb : P.bootPreferences = some b) : WellFormed P L (s.setHostname b.managedHostname) := by
  refine ⟨fun hc => validate_hostname (h.valid hc) ((hs hc).managed hb), h.pending, h.jobId,
    h.jobCaller, h.action, ?_⟩
  intro hB
  refine ⟨(h.named hB).1, ?_⟩
  intro b' hb'
  rw [hb] at hb'
  injection hb' with hb'
  rw [← hb']
  rfl

theorem wipe (h : WellFormed P L s) (hs : L.checked → Sound P) (hB : L.booted → L.checked)
    (hp : FitPending L {}) : WellFormed P L (s.wipe P.defaults) :=
  ⟨fun hc => (hs hc).defaults, hp, h.jobId, h.jobCaller, h.action,
    fun h => ⟨rfl, (hs (hB h)).factoryName⟩⟩

theorem completeReset (h : WellFormed P L s) : WellFormed P L s.completeReset := by
  refine ⟨h.valid, h.pending, h.jobId, h.jobCaller, ?_, h.named⟩
  intro ha
  obtain ha | ha := ha
  · exact absurd ha (by simp [State.completeReset])
  · exact absurd ha (by simp [State.completeReset])

theorem markInitialized (h : WellFormed P L s) : WellFormed P L { s with initialized := true } :=
  ⟨h.valid, h.pending, h.jobId, h.jobCaller, h.action, fun hB => ⟨rfl, (h.named hB).2⟩⟩

theorem proposed (h : WellFormed P L s) {p : NetworkProposal} {id actor requestId : Bytes} {t : ℕ}
    (hn : validateNetwork p.network = .ok ())
    (hp : Backend.validHash p.previousSettingsHash = true)
    (hc : Backend.validHash p.candidateSettingsHash = true) (hid : L.id id)
    (hl : L.network actor requestId) :
    WellFormed P L { s with pending := Backend.proposed s p id actor requestId t } :=
  ⟨h.valid, ⟨fun _ => hn, fun hc => validate_network (h.valid hc), .inr rfl, hid, .inr hp, .inr hc, Nat.le_refl _,
    Nat.mod_lt _ (by decide), hl⟩, h.jobId, h.jobCaller, h.action, h.named⟩

theorem accept (h : WellFormed P L s) {job : Job} {reset : Bool} {actor requestId : Bytes}
    (hid : L.id job.id) (ha : job.action ≠ .none) (hl : L.job actor requestId) :
    WellFormed P L { s with
      job := job, resetIntent := s.resetIntent || reset, jobActor := actor, jobRequestId := requestId } :=
  ⟨h.valid, h.pending, hid, hl, fun _ => ha, h.named⟩

/-- The constructor fills an empty port with the one of the defaults, which is fit or empty. -/
theorem migrate (h : WellFormed P L s) (hs : L.checked → Sound P) :
    WellFormed P L (Backend.migrate P s) := by
  unfold Backend.migrate
  split
  · rename_i he
    refine h.replace ?_ fun hB => h.named hB
    intro hc
    obtain ⟨hh, ht, hn⟩ := validate_ok.mp (h.valid hc)
    have hd := (validate_ok.mp (hs hc).defaults).2.1
    -- With an empty port the synchronization is not by PTP.
    have hmode : s.configuration.time.synchronization ≠ ascii "ptp" := by
      obtain ⟨-, hm⟩ | hv := ht.ptp
      · exact hm
      · rw [List.isEmpty_iff.mp he] at hv
        simp [validInterfaceName] at hv
    have hport : (P.defaults.time.ptpInterface.isEmpty = true ∧
        s.configuration.time.synchronization ≠ ascii "ptp") ∨
        validInterfaceName P.defaults.time.ptpInterface = true := by
      obtain ⟨hempty, -⟩ | hv := hd.ptp
      · exact .inl ⟨hempty, hmode⟩
      · exact .inr hv
    exact validate_ok.mpr ⟨hh, ⟨ht.mode, ht.timezone, hport, ht.count, ht.servers⟩, hn⟩
  · exact h

end WellFormed

/-- A device without a journal. -/
theorem wellFormed_fresh (hs : Surroundings S L) (hB : ¬L.booted) :
    WellFormed S.profile L { configuration := S.profile.defaults } := by
  refine ⟨fun hc => (hs.sound hc).defaults, fitPending_default hs, hs.id, hs.job, ?_, fun h => absurd h hB⟩
  rintro (h | h)
  · simp at h
  · simp at h

theorem wellFormed_loaded (hs : Surroundings S L) (h : Durable S L w) :
    WellFormed S.profile L (Backend.loaded S.profile w.journal) := by
  unfold Backend.loaded
  cases hj : w.journal with
  | some d => exact (h.stored d hj).migrate hs.sound
  | none =>
    apply WellFormed.migrate _ hs.sound
    apply wellFormed_fresh hs
    intro hB
    have hp := h.present hB
    rw [hj] at hp
    simp at hp

/-! ### Effects -/

/-- Worlds that agree on all that the invariant reads. -/
structure Agree (w w' : World) : Prop where
  state : w'.state = w.state
  journal : w'.journal = w.journal
  jobDeadline : w'.jobDeadline = w.jobDeadline
  events : w'.events = w.events
  script : w'.script = w.script

theorem Agree.refl (w : World) : Agree w w := ⟨rfl, rfl, rfl, rfl, rfl⟩

theorem Agree.trans {w'' : World} (h : Agree w w') (h' : Agree w' w'') : Agree w w'' :=
  ⟨h'.state.trans h.state, h'.journal.trans h.journal, h'.jobDeadline.trans h.jobDeadline,
    h'.events.trans h.events, h'.script.trans h.script⟩

theorem Durable.agree (h : Durable S L w) (ha : Agree w w') : Durable S L w' := by
  refine ⟨?_, ?_, ?_, ?_⟩
  · rw [ha.journal]
    exact h.stored
  · rw [ha.journal]
    exact h.present
  · rw [ha.events]
    exact h.events
  · rw [ha.script]
    exact h.ids

theorem Safe.agree (h : Safe S L w) (ha : Agree w w') : Safe S L w' := by
  refine ⟨h.toDurable.agree ha, ?_, ?_⟩
  · rw [ha.state]
    exact h.memory
  · rw [ha.jobDeadline, ha.state]
    exact h.armed

theorem authority_agree (vs : List Bytes) (w : World) : Agree w (w.authority vs) := by
  induction vs generalizing w with
  | nil => exact Agree.refl w
  | cons v vs ih =>
    have hv : Agree w (w.write v) := ⟨rfl, rfl, rfl, rfl, rfl⟩
    exact hv.trans (ih (w.write v))

/-- The environment's answer, and the world without it. -/
theorem draw_ids (hs : Surroundings S L) (h : ∀ c ∈ w.script, L.id c.id) :
    L.id w.draw.1.id ∧ ∀ c ∈ w.draw.2.script, L.id c.id := by
  unfold World.draw
  split
  · exact ⟨hs.id, h⟩
  · rename_i c cs hc
    rw [hc] at h
    exact ⟨h c (List.mem_cons_self ..), fun x hx => h x (List.mem_cons_of_mem _ hx)⟩

theorem draw_rest (w : World) : w.draw.2.events = w.events := by
  unfold World.draw
  split
  · rfl
  · rfl

theorem Durable.draw (hs : Surroundings S L) (h : Durable S L w) : Durable S L w.draw.2 := by
  have hc := draw_core w
  refine ⟨?_, ?_, ?_, (draw_ids hs h.ids).2⟩
  · rw [hc]
    exact h.stored
  · rw [hc]
    exact h.present
  · rw [draw_rest]
    exact h.events

theorem Safe.draw (hs : Surroundings S L) (h : Safe S L w) : Safe S L w.draw.2 := by
  have hc := draw_core w
  refine ⟨h.toDurable.draw hs, ?_, ?_⟩
  · rw [hc]
    exact h.memory
  · rw [hc]
    exact h.armed

/-- The rule for an effect: it is enough that the operation keeps the invariant for every answer
of the environment. -/
theorem effect_upholds {α : Type} {op : Choice → World → Outcome Error α × World}
    {Q : α → World → Prop} (hs : Surroundings S L) (hw : Safe S L w)
    (hop : ∀ c u, L.id c.id → Safe S L u → u.toCore = w.toCore →
      Safe S L (op c u).2 ∧ ∀ a, (op c u).1 = .ret a → ∀ u', Agree (op c u).2 u' → Q a u') :
    Upholds (Safe S L) (effect op) w Q := by
  have hd := hw.draw hs
  obtain ⟨hk, hr⟩ := hop w.draw.1 w.draw.2 (draw_ids hs hw.ids).1 hd (draw_core w)
  have ha := authority_agree w.draw.1.writes (op w.draw.1 w.draw.2).2
  refine ⟨?_, ?_⟩
  · rw [effect_apply]
    split
    · exact hd.agree ⟨rfl, rfl, rfl, rfl, rfl⟩
    · exact hk.agree ha
  · intro a w' h
    rw [effect_apply] at h
    split at h
    · simp at h
    · injection h with h₁ h₂
      subst h₂
      exact hr a h₁ _ ha

/-- An effect that leaves alone what the invariant reads. -/
theorem quiet_upholds {α : Type} {op : Choice → World → Outcome Error α × World}
    (hs : Surroundings S L) (hw : Safe S L w) (hop : ∀ c u, Agree u (op c u).2) :
    Upholds (Safe S L) (effect op) w fun a w' =>
      w'.state = w.state ∧ ∃ c u, L.id c.id ∧ (op c u).1 = .ret a := by
  apply effect_upholds hs hw
  intro c u hid hu hc
  refine ⟨hu.agree (hop c u), ?_⟩
  intro a ha u' hu'
  refine ⟨?_, c, u, hid, ha⟩
  rw [hu'.state, (hop c u).state, hc]

/-- The parts of a result that most callers need. -/
theorem Upholds.state {α : Type} {m : Prog α} {I : World → Prop} {Q : α → Prop}
    (h : Upholds I m w fun a w' => w'.state = w.state ∧ Q a) :
    Upholds I m w fun _ w' => w'.state = w.state := h.mono fun _ _ _ h => h.1

namespace Backend
variable (hs : Surroundings S L)
include hs

theorem platformCall_upholds (entry : Bool → Entry) (hw : Safe S L w) :
    Upholds (Safe S L) (platformCall entry) w fun _ w' => w'.state = w.state := by
  apply Upholds.state
  apply quiet_upholds hs hw
  intro c u
  split
  · exact ⟨rfl, rfl, rfl, rfl, rfl⟩
  · exact ⟨rfl, rfl, rfl, rfl, rfl⟩

theorem validateConfiguration_upholds (config : Configuration) (hw : Safe S L w) :
    Upholds (Safe S L) (platformValidateConfiguration config) w fun _ w' => w'.state = w.state := by
  apply Upholds.state
  apply quiet_upholds hs hw
  intro c u
  split
  · exact Agree.refl u
  · exact Agree.refl u

theorem power_call_upholds (action : PowerAction) (hw : Safe S L w) :
    Upholds (Safe S L) (platformPower action) w fun _ w' => w'.state = w.state := by
  apply Upholds.state
  apply quiet_upholds hs hw
  intro c u
  dsimp only
  split
  · exact ⟨rfl, rfl, rfl, rfl, rfl⟩
  · exact ⟨rfl, rfl, rfl, rfl, rfl⟩

theorem networkLinks_upholds (hw : Safe S L w) :
    Upholds (Safe S L) platformNetworkLinks w fun _ w' => w'.state = w.state := by
  apply Upholds.state
  apply quiet_upholds hs hw
  intro c u
  split
  · exact Agree.refl u
  · exact Agree.refl u

theorem readClock_upholds (hw : Safe S L w) :
    Upholds (Safe S L) readClock w fun t w' => w'.state = w.state ∧ t < 2^64 := by
  apply (quiet_upholds hs hw fun c u => ⟨rfl, rfl, rfl, rfl, rfl⟩).mono
  rintro t w' - ⟨hst, c, u, -, ht⟩
  injection ht with ht
  exact ⟨hst, by rw [← ht]; exact Nat.mod_lt _ (by decide)⟩

theorem randomId_upholds (hw : Safe S L w) :
    Upholds (Safe S L) randomId w fun id w' => w'.state = w.state ∧ L.id id := by
  apply Upholds.mono
  · apply quiet_upholds hs hw
    intro c u
    split
    · exact Agree.refl u
    · exact Agree.refl u
  · rintro id w' - ⟨hst, c, u, hid, hr⟩
    refine ⟨hst, ?_⟩
    split at hr
    · simp at hr
    · injection hr with hr
      rw [← hr]
      exact hid

theorem fileHash_upholds (hw : Safe S L w) :
    Upholds (Safe S L) (fileHash S) w fun _ w' => w'.state = w.state := by
  apply Upholds.state
  apply quiet_upholds hs hw
  intro c u
  split
  · exact Agree.refl u
  · split
    · exact Agree.refl u
    · exact ⟨rfl, rfl, rfl, rfl, rfl⟩

theorem storageStatus_upholds (path : Bytes) (hw : Safe S L w) :
    Upholds (Safe S L) (storageStatus path) w fun _ w' => w'.state = w.state := by
  apply Upholds.state
  apply quiet_upholds hs hw
  intro c u
  split
  · exact Agree.refl u
  · split
    · exact Agree.refl u
    · exact Agree.refl u
    · exact ⟨rfl, rfl, rfl, rfl, rfl⟩

omit hs in
theorem setState_upholds {f : State → State} {marks : List Entry} (hw : Safe S L w)
    (hf : WellFormed S.profile L (f w.state))
    (ha : (f w.state).job.action = w.state.job.action) :
    Upholds (Safe S L) (setState f marks) w fun _ w' => w'.state = f w.state := by
  apply Upholds.modify
  · refine ⟨⟨hw.stored, hw.present, hw.events, hw.ids⟩, hf, ?_⟩
    intro hd
    exact fun hn => hw.armed hd (ha.symm.trans hn)
  · rfl

omit hs in
theorem event_upholds {e : UserEvent} (hw : Safe S L w) (he : L.event e) :
    Upholds (Safe S L) (event e) w fun _ w' => w'.state = w.state := by
  apply Upholds.modify
  · refine ⟨⟨hw.stored, hw.present, ?_, hw.ids⟩, hw.memory, hw.armed⟩
    intro x hx
    rcases List.mem_append.mp hx with hx | hx
    · exact hw.events x hx
    · rw [List.mem_singleton.mp hx]
      exact he
  · rfl

omit hs in
theorem modify_upholds {f : World → World} (hw : Safe S L w) (hf : Agree w (f w)) :
    Upholds (Safe S L) (modify f : Prog Unit) w fun _ w' => w'.state = w.state :=
  Upholds.modify (hw.agree hf) hf.state

/-- A journal write leaves a well-formed text, the old one or the one in memory. -/
theorem persist_upholds (hw : Safe S L w) :
    Upholds (Safe S L) persist w fun _ w' => w'.state = w.state := by
  have hwrite : ∀ u : World, Safe S L u → ∀ t, Safe S L { u with journal := some u.state, trace := t } := by
    intro u hu t
    refine ⟨⟨?_, fun _ => rfl, hu.events, hu.ids⟩, hu.memory, hu.armed⟩
    intro d hd
    injection hd with hd
    rw [← hd]
    exact hu.memory
  apply Upholds.get
  apply Upholds.bind (Upholds.require (Q := fun _ w' => w' = w) hw fun _ => rfl)
  rintro _ w₁ hw₁ rfl
  apply Upholds.attempt
  · apply effect_upholds hs hw₁
    intro c u _ hu hc
    split
    · refine ⟨?_, by simp⟩
      dsimp only
      split
      · exact hwrite u hu _
      · exact hu.agree ⟨rfl, rfl, rfl, rfl, rfl⟩
    · refine ⟨hwrite u hu _, ?_⟩
      intro _ _ u' hu'
      have hst : u.state = w₁.state := by rw [hc]
      exact hu'.state.trans hst
  · intro e w₂ hw₂ _
    apply Upholds.bind (modify_upholds hw₂ ⟨rfl, rfl, rfl, rfl, rfl⟩)
    intro _ w₃ hw₃ _
    exact Upholds.raise hw₃

/-! ### Transactions and ticks -/

theorem settleNetwork_upholds (commit bootstrap : Bool) (reason : Reason) (hw : Safe S L w) :
    Upholds (Safe S L) (settleNetwork commit bootstrap reason) w fun _ w' =>
      w'.state.initialized = w.state.initialized := by
  apply Upholds.get
  apply Upholds.bind (platformCall_upholds hs _ hw)
  intro _ w₁ hw₁ h₁
  apply Upholds.bind (setState_upholds hw₁ (hw₁.memory.settle commit) rfl)
  intro _ w₂ hw₂ h₂
  apply Upholds.bind (persist_upholds hs hw₂)
  intro _ w₃ hw₃ h₃
  have hcaller : L.network (w.state.settle commit).pending.actor (w.state.settle commit).pending.requestId :=
    hw.memory.pending.caller
  apply (event_upholds hw₃ (hs.settle _ commit reason hcaller)).mono
  intro _ w₄ _ h₄
  rw [h₄, h₃, h₂, h₁]
  rfl

theorem recoverNetwork_upholds (bootstrap : Bool) (hw : Safe S L w) :
    Upholds (Safe S L) (recoverNetwork S bootstrap) w fun _ w' =>
      w'.state.initialized = w.state.initialized := by
  -- The program taken at this world is one of three, each of which keeps the invariant.
  have of_eq : ∀ {m : Prog Unit}, recoverNetwork S bootstrap w = m w →
      Upholds (Safe S L) m w (fun _ w' => w'.state.initialized = w.state.initialized) →
      Upholds (Safe S L) (recoverNetwork S bootstrap) w fun _ w' =>
        w'.state.initialized = w.state.initialized := by
    intro m he h
    exact ⟨by rw [he]; exact h.kept, fun a w' hr => h.post a w' (he ▸ hr)⟩
  by_cases ho : w.state.isOpen = true
  · by_cases hc : (w.state.pending.transaction.state == .committing) = true
    · apply of_eq (by rw [recoverNetwork_apply, if_pos ho, if_pos hc])
      apply Upholds.bind (fileHash_upholds hs hw)
      intro h w₁ hw₁ h₁
      rw [← h₁]
      exact settleNetwork_upholds hs _ bootstrap _ hw₁
    · apply of_eq (by rw [recoverNetwork_apply, if_pos ho, if_neg hc])
      exact settleNetwork_upholds hs false bootstrap _ hw
  · apply of_eq (m := pure ()) (by rw [recoverNetwork_apply, if_neg ho]; rfl)
    exact Upholds.pure hw rfl

theorem dispatchPower_upholds (hw : Safe S L w) (ha : w.state.job.action ≠ .none) :
    Upholds (Safe S L) dispatchPower w fun _ _ => True := by
  apply Upholds.get
  apply Upholds.attempt
  · apply Upholds.bind (power_call_upholds hs _ hw)
    intro _ w₁ hw₁ _
    exact (event_upholds hw₁ (hs.dispatched _ hw.memory.jobCaller ha)).mono fun _ _ _ _ => trivial
  · intro e w₁ hw₁ _
    apply Upholds.bind (setState_upholds hw₁ (hw₁.memory.setJob (by simp)) rfl)
    intro _ w₂ hw₂ _
    apply Upholds.bind (persist_upholds hs hw₂)
    intro _ w₃ hw₃ _
    apply Upholds.bind (event_upholds hw₃ (hs.failed _ hw.memory.jobCaller ha))
    intro _ w₄ hw₄ _
    exact Upholds.raise hw₄

theorem dispatch_upholds (hw : Safe S L w) (hd : w.jobDeadline ≠ 0) :
    Upholds (Safe S L) dispatch w fun _ _ => True := by
  have ha := hw.armed hd
  have hzero : Safe S L { w with jobDeadline := 0 } :=
    ⟨⟨hw.stored, hw.present, hw.events, hw.ids⟩, hw.memory, fun h => absurd rfl h⟩
  apply Upholds.bind (Upholds.modify (Q := fun _ w' => w'.state = w.state) hzero rfl)
  intro _ w₁ hw₁ h₁
  apply Upholds.bind (setState_upholds hw₁ (hw₁.memory.setJob (by simp)) rfl)
  intro _ w₂ hw₂ h₂
  apply Upholds.bind (persist_upholds hs hw₂)
  intro _ w₃ hw₃ h₃
  apply dispatchPower_upholds hs hw₃
  rw [h₃, h₂, h₁]
  exact ha

theorem observeLink_upholds (link : NetworkStatus) (hw : Safe S L w) :
    Upholds (Safe S L) (observeLink S link) w fun _ _ => True := by
  have hstore : ∀ {u : World}, Safe S L u → Upholds (Safe S L) (modify fun w => { w with
      carriers := (link.interface, link.carrier) :: w.carriers.filter (·.1 != link.interface) } :
        Prog Unit) u fun _ _ => True := fun hu =>
    (modify_upholds hu ⟨rfl, rfl, rfl, rfl, rfl⟩).mono fun _ _ _ _ => trivial
  unfold observeLink
  split
  · rename_i hc
    have hlink := hs.link link (List.contains_iff_mem.mp hc)
    apply Upholds.get
    dsimp only
    split
    · split
      · apply Upholds.bind (event_upholds hw hlink)
        intro _ w₁ hw₁ _
        exact hstore hw₁
      · exact hstore hw
    · exact hstore hw
  · exact Upholds.pure hw trivial

theorem observeNetwork_upholds (hw : Safe S L w) :
    Upholds (Safe S L) (observeNetwork S) w fun _ _ => True := by
  apply Upholds.attempt
  · apply Upholds.bind (networkLinks_upholds hs hw)
    intro links w₁ hw₁ _
    apply Upholds.bind (modify_upholds hw₁ ⟨rfl, rfl, rfl, rfl, rfl⟩)
    intro _ w₂ hw₂ _
    exact Upholds.each hw₂ fun link _ w hw => observeLink_upholds hs link hw
  · intro e w₁ hw₁ _
    exact Upholds.pure hw₁ trivial

theorem tickObserve_upholds (hw : Safe S L w) :
    Upholds (Safe S L) (tickObserve S) w fun _ _ => True := by
  apply Upholds.bind (readClock_upholds hs hw)
  intro t w₁ hw₁ _
  apply Upholds.get
  split
  · apply Upholds.bind (readClock_upholds hs hw₁)
    intro t w₂ hw₂ _
    apply Upholds.bind (modify_upholds hw₂ ⟨rfl, rfl, rfl, rfl, rfl⟩)
    intro _ w₃ hw₃ _
    exact observeNetwork_upholds hs hw₃
  · exact Upholds.pure hw₁ trivial

theorem tickExpire_upholds (hw : Safe S L w) :
    Upholds (Safe S L) (tickExpire S) w fun _ _ => True := by
  apply Upholds.get
  split
  · apply Upholds.bind (readClock_upholds hs hw)
    intro t w₁ hw₁ _
    split
    · exact (recoverNetwork_upholds hs false hw₁).mono fun _ _ _ _ => trivial
    · exact Upholds.pure hw₁ trivial
  · exact Upholds.pure hw trivial

/-- The clock does not touch the deadline that is compared with it. -/
theorem readClock_deadline (hw : Safe S L w) : Upholds (Safe S L) readClock w fun _ w' =>
    w'.jobDeadline = w.jobDeadline := by
  refine ⟨(readClock_upholds hs hw).kept, ?_⟩
  intro t w' h
  exact (readClock_ret h).jobDeadline

theorem tickDispatch_upholds (hw : Safe S L w) :
    Upholds (Safe S L) tickDispatch w fun _ _ => True := by
  apply Upholds.get
  split
  · rename_i hd
    apply Upholds.bind (readClock_deadline hs hw)
    intro t w₁ hw₁ h₁
    split
    · apply dispatch_upholds hs hw₁
      rw [h₁]
      simpa using hd
    · exact Upholds.pure hw₁ trivial
  · exact Upholds.pure hw trivial

theorem tick_upholds (hw : Safe S L w) : Upholds (Safe S L) (tick S) w fun _ _ => True := by
  apply Upholds.get
  apply Upholds.bind (Upholds.require (Q := fun _ _ => True) hw fun _ => trivial)
  intro _ w₁ hw₁ _
  apply Upholds.bind (tickObserve_upholds hs hw₁)
  intro _ w₂ hw₂ _
  apply Upholds.bind (tickExpire_upholds hs hw₂)
  intro _ w₃ hw₃ _
  exact tickDispatch_upholds hs hw₃

/-! ### Bootstrap and start -/

theorem bootPolicy_upholds (hw : Safe S L w) :
    Upholds (Safe S L) bootPolicy w fun _ w' => w'.state = w.state := by
  apply Upholds.get
  apply Upholds.bind (platformCall_upholds hs _ hw)
  intro _ w₁ hw₁ h₁
  apply Upholds.bind (platformCall_upholds hs _ hw₁)
  intro _ w₂ hw₂ h₂
  apply (platformCall_upholds hs _ hw₂).mono
  intro _ w₃ _ h₃
  exact h₃.trans (h₂.trans h₁)

/-- A path below a reset path is removed; the journal of a booted device is not below one. -/
theorem remove_safe {p q : Bytes} (hp : p ∈ S.profile.resetPaths) (hq : inside p q = true)
    (hw : Safe S L w) : Safe S L (World.remove S w q) := by
  refine ⟨⟨?_, ?_, hw.events, hw.ids⟩, hw.memory, hw.armed⟩
  · intro d hd
    change (if inside q S.journalPath then none else w.journal) = some d at hd
    split at hd
    · simp at hd
    · exact hw.stored d hd
  · intro hB
    have hn : inside q S.journalPath = false := by
      by_contra hi
      have ht := inside_trans hq (by simpa using hi)
      rw [hs.reset hB p hp] at ht
      simp at ht
    change (if inside q S.journalPath then none else w.journal).isSome = true
    rw [hn]
    exact hw.present hB

theorem removeGone_safe {p : Bytes} (hp : p ∈ S.profile.resetPaths) (gone : List Bytes)
    (hg : ∀ q ∈ gone, inside p q = true) (hw : Safe S L w) :
    Safe S L (gone.foldl (World.remove S) w) ∧ (gone.foldl (World.remove S) w).state = w.state := by
  induction gone generalizing w with
  | nil => exact ⟨hw, rfl⟩
  | cons q gone ih =>
    have hq := remove_safe hs hp (hg q (List.mem_cons_self ..)) hw
    obtain ⟨hk, hst⟩ := ih (fun x hx => hg x (List.mem_cons_of_mem _ hx)) hq
    exact ⟨hk, hst⟩

theorem durableRemove_upholds {p : Bytes} (hp : p ∈ S.profile.resetPaths) (hw : Safe S L w) :
    Upholds (Safe S L) (durableRemove S p) w fun _ _ => True := by
  apply effect_upholds hs hw
  intro c u _ hu _
  split
  · refine ⟨?_, by simp⟩
    exact (removeGone_safe hs hp _ (fun q hq => (List.mem_filter.mp hq).2) hu).1
  · exact ⟨remove_safe hs hp (inside_refl p) hu, fun _ _ _ _ => trivial⟩

theorem bootstrapErase_upholds (hw : Safe S L w) :
    Upholds (Safe S L) (bootstrapErase S) w fun _ w' => w'.state.initialized = true := by
  apply Upholds.bind (Upholds.each hw fun p hp u hu => durableRemove_upholds hs hp hu)
  intro _ w₁ hw₁ _
  apply Upholds.bind (setState_upholds hw₁ (hw₁.memory.wipe hs.sound hs.booted (fitPending_default hs)) rfl)
  intro _ w₂ hw₂ h₂
  apply Upholds.bind (bootPolicy_upholds hs hw₂)
  intro _ w₃ hw₃ h₃
  apply Upholds.bind (setState_upholds hw₃ hw₃.memory.completeReset rfl)
  intro _ w₄ hw₄ h₄
  apply Upholds.bind (persist_upholds hs hw₄)
  intro _ w₅ hw₅ h₅
  apply Upholds.get
  apply (event_upholds hw₅ (hs.completed _ hw₅.memory.jobCaller)).mono
  intro _ w₆ _ h₆
  rw [h₆, h₅, h₄, h₃, h₂]
  rfl

theorem bootstrapReset_upholds (hw : Safe S L w) :
    Upholds (Safe S L) (bootstrapReset S) w fun _ w' => w'.state.initialized = true := by
  unfold bootstrapReset
  split
  · apply Upholds.bind (storageStatus_upholds hs _ hw)
    rintro ⟨_, prepared⟩ w₁ hw₁ _
    apply Upholds.bind (Upholds.require (Q := fun _ _ => True) hw₁ fun _ => trivial)
    intro _ w₂ hw₂ _
    exact bootstrapErase_upholds hs hw₂
  · exact bootstrapErase_upholds hs hw

theorem bootstrapInitial_upholds {b : BootPreferences} (hb : S.profile.bootPreferences = some b)
    (hi : w.state.initialized = false) (hw : Safe S L w) :
    Upholds (Safe S L) (bootstrapInitial b) w fun _ w' => w'.state.initialized = true := by
  have hB : ¬L.booted := by
    intro hB
    rw [(hw.memory.named hB).1] at hi
    simp at hi
  apply Upholds.bind (setState_upholds hw
    (hw.memory.replace (fun hc => (hs.sound hc).initial b hb) fun h => absurd h hB) rfl)
  intro _ w₁ hw₁ _
  apply Upholds.bind (bootPolicy_upholds hs hw₁)
  intro _ w₂ hw₂ _
  apply Upholds.bind (setState_upholds hw₂ hw₂.memory.markInitialized rfl)
  intro _ w₃ hw₃ h₃
  apply (persist_upholds hs hw₃).mono
  intro _ w₄ _ h₄
  rw [h₄, h₃]

theorem bootstrapHostname_upholds {b : BootPreferences} (hb : S.profile.bootPreferences = some b)
    (hw : Safe S L w) : Upholds (Safe S L) (bootstrapHostname b) w fun _ _ => True := by
  apply Upholds.bind (setState_upholds hw (hw.memory.setHostname hs.sound hb) rfl)
  intro _ w₁ hw₁ _
  apply Upholds.bind (platformCall_upholds hs _ hw₁)
  intro _ w₂ hw₂ _
  exact (persist_upholds hs hw₂).mono fun _ _ _ _ => trivial

/-- The three branches of bootstrap before the managed name. -/
def bootstrapBranch (S : Site) : Prog Unit := do
  let s ← gets (·.state)
  if s.resetIntent then bootstrapReset S
  else if s.initialized then
    recoverNetwork S true
    bootPolicy
  else
    match S.profile.bootPreferences with
    | some b => bootstrapInitial b
    | none => platformClockBootPolicy S.profile.defaults.time

omit hs in
theorem bootstrap_eq : bootstrap S = bootstrapBranch S >>= fun _ =>
    match S.profile.bootPreferences with
    | some b => bootstrapHostname b
    | none => pure () := by
  funext w
  unfold bootstrap bootstrapBranch
  rw [bind_assoc, gets_bind, gets_bind]
  split
  · rfl
  · split
    · exact (congrFun (Act.bind_assoc ..) w).symm
    · cases S.profile.bootPreferences with
      | none => rfl
      | some b => rfl

theorem bootstrapBranch_upholds (hw : Safe S L w) :
    Upholds (Safe S L) (bootstrapBranch S) w fun _ w' =>
      S.profile.bootPreferences.isSome = true → w'.state.initialized = true := by
  apply Upholds.get
  split
  · exact (bootstrapReset_upholds hs hw).mono fun _ _ _ h _ => h
  · split
    · rename_i hi
      apply Upholds.bind (recoverNetwork_upholds hs true hw)
      intro _ w₁ hw₁ h₁
      apply (bootPolicy_upholds hs hw₁).mono
      intro _ w₂ _ h₂ _
      rw [h₂, h₁]
      exact hi
    · rename_i hi
      split
      · rename_i b hb
        exact (bootstrapInitial_upholds hs hb (by simpa using hi) hw).mono fun _ _ _ h _ => h
      · rename_i hb
        apply (platformCall_upholds hs _ hw).mono
        intro _ w₁ _ _ hp
        rw [hb] at hp
        simp at hp

theorem bootstrap_upholds (hw : Safe S L w) :
    Upholds (Safe S L) (bootstrap S) w fun _ _ => True := by
  rw [bootstrap_eq]
  apply Upholds.bind (bootstrapBranch_upholds hs hw)
  intro _ w₁ hw₁ _
  split
  · rename_i b hb
    exact bootstrapHostname_upholds hs hb hw₁
  · exact Upholds.pure hw₁ trivial

/-- A discovered configuration is in memory before it is checked. When the check fails only the
durable part of the invariant is left, and the process ends. -/
theorem startDiscover_upholds (hi : w.state.initialized = false) (hw : Safe S L w) :
    Upholds (Durable S L) startDiscover w fun _ w' => Safe S L w' := by
  have hB : ¬L.booted := by
    intro hB
    rw [(hw.memory.named hB).1] at hi
    simp at hi
  have hdisc : Upholds (Safe S L) platformDiscover w fun _ _ => True := by
    apply Upholds.mono
    · apply quiet_upholds hs hw
      intro c u
      split
      · exact Agree.refl u
      · exact ⟨rfl, rfl, rfl, rfl, rfl⟩
    · exact fun _ _ _ _ => trivial
  apply Upholds.bind (hdisc.weaken fun _ h => h.toDurable)
  rintro c w₁ - ⟨hw₁, -⟩
  have hd₁ : Durable S L { w₁ with state := { w₁.state with configuration := c } } :=
    ⟨hw₁.stored, hw₁.present, hw₁.events, hw₁.ids⟩
  apply Upholds.bind (Upholds.modify (Q := fun _ w' =>
    w' = { w₁ with state := { w₁.state with configuration := c } }) hd₁ rfl)
  rintro _ w₂ hd₂ rfl
  apply Upholds.bind (Upholds.lift (Q := fun _ w' => Safe S L w') hd₂ fun _ hc =>
    ⟨hd₂, hw₁.memory.replace (fun _ => hc) fun h => absurd h hB, hw₁.armed⟩)
  intro _ w₃ _ hw₃
  have hlast : Upholds (Safe S L) (setState (fun s => { s with initialized := true }) >>= fun _ => persist)
      w₃ fun _ _ => True := by
    apply Upholds.bind (setState_upholds hw₃ hw₃.memory.markInitialized rfl)
    intro _ w₄ hw₄ _
    exact (persist_upholds hs hw₄).mono fun _ _ _ _ => trivial
  exact (hlast.weaken fun _ h => h.toDurable).mono fun _ _ _ h => h.1

theorem startInterrupt_upholds (hw : Safe S L w) :
    Upholds (Safe S L) startInterrupt w fun _ _ => True := by
  apply Upholds.get
  split
  · rename_i hj
    have ha : w.state.job.action ≠ .none := hw.memory.action (.inl (by simpa using hj))
    apply Upholds.bind (setState_upholds hw (hw.memory.setJob (by simp)) rfl)
    intro _ w₁ hw₁ h₁
    apply Upholds.bind (persist_upholds hs hw₁)
    intro _ w₂ hw₂ h₂
    apply Upholds.get
    have ha₂ : w₂.state.job.action ≠ .none := by
      rw [h₂, h₁]
      exact ha
    exact (event_upholds hw₂ (hs.interrupted _ hw₂.memory.jobCaller ha₂)).mono fun _ _ _ _ => trivial
  · exact Upholds.pure hw trivial

omit hs in
/-- Scheduling needs a job with an action. -/
theorem arm_upholds (deadline : ℕ) (hw : Safe S L w) (ha : w.state.job.action ≠ .none) :
    Upholds (Safe S L) (modify fun w => { w with jobDeadline := deadline } : Prog Unit) w
      fun _ w' => w'.state = w.state :=
  Upholds.modify ⟨⟨hw.stored, hw.present, hw.events, hw.ids⟩, hw.memory, fun _ => ha⟩ rfl

theorem start_upholds (hw : Safe S L w) :
    Upholds (Durable S L) (start S) w fun _ w' => Safe S L w' := by
  have hrest : ∀ {u : World}, Safe S L u → Upholds (Durable S L)
      (recoverNetwork S false >>= fun _ => startInterrupt) u fun _ w' => Safe S L w' := by
    intro u hu
    have h := Upholds.bind (recoverNetwork_upholds hs false hu) fun _ w₁ hw₁ _ =>
      startInterrupt_upholds hs hw₁
    exact (h.weaken fun _ h => h.toDurable).mono fun _ _ _ h => h.1
  apply Upholds.get
  split
  · rename_i hi
    have harm : Upholds (Safe S L) (readClock >>= fun t =>
        modify fun w => { w with jobDeadline := add64 t 5000 }) w fun _ _ => True := by
      apply Upholds.bind (readClock_upholds hs hw)
      intro t w₁ hw₁ h₁
      have ha : w₁.state.job.action ≠ .none := by
        rw [h₁.1]
        exact hw.memory.action (.inr hi)
      exact (arm_upholds _ hw₁ ha).mono fun _ _ _ _ => trivial
    exact (harm.weaken fun _ h => h.toDurable).mono fun _ _ _ h => h.1
  · dsimp only
    split
    · rename_i hn
      apply Upholds.bind (startDiscover_upholds hs (by simpa using hn) hw)
      intro _ w₁ _ hw₁
      exact hrest hw₁
    · exact hrest hw

/-! ### Preferences -/

omit hs in
theorem idle_upholds (hw : Safe S L w) : Upholds (Safe S L) idle w fun _ w' => w' = w := by
  have hu := idle_unchanged w
  refine ⟨by rw [hu]; exact hw, ?_⟩
  intro u w' h
  rw [h] at hu
  exact hu

omit hs in
theorem checkHostname_upholds (config : Configuration) (hw : Safe S L w) :
    Upholds (Safe S L) (checkHostname S config) w fun _ w' => w' = w ∧ ManagedHostname S config := by
  unfold checkHostname ManagedHostname
  cases hb : S.profile.bootPreferences with
  | some b =>
    apply Upholds.require hw
    intro hn
    refine ⟨rfl, ?_⟩
    intro b' hb'
    injection hb' with hb'
    rw [← hb']
    simpa using hn
  | none => exact Upholds.pure hw ⟨rfl, by simp⟩

theorem applyForward_upholds {config : Configuration} (hc : validate config = .ok ())
    (hm : ManagedHostname S config) (hw : Safe S L w) :
    Upholds (Safe S L) (applyForward config) w fun _ _ => True := by
  apply Upholds.bind (platformCall_upholds hs _ hw)
  intro _ w₁ hw₁ _
  apply Upholds.bind (platformCall_upholds hs _ hw₁)
  intro _ w₂ hw₂ _
  apply Upholds.bind (setState_upholds hw₂ (hw₂.memory.configure hc hm) rfl)
  intro _ w₃ hw₃ _
  exact (persist_upholds hs hw₃).mono fun _ _ _ _ => trivial

theorem applyRollback_upholds {previous : Configuration} (hc : L.checked → validate previous = .ok ())
    (hm : L.booted → ManagedHostname S previous) (hw : Safe S L w) :
    Upholds (Safe S L) (applyRollback previous) w fun _ _ => True := by
  have hwf : WellFormed S.profile L { w.state with configuration := previous } :=
    hw.memory.replace hc fun hB => ⟨(hw.memory.named hB).1, hm hB⟩
  apply Upholds.bind (setState_upholds hw hwf rfl)
  intro _ w₁ hw₁ _
  apply Upholds.attempt
  · apply Upholds.bind (platformCall_upholds hs _ hw₁)
    intro _ w₂ hw₂ _
    apply Upholds.bind (platformCall_upholds hs _ hw₂)
    intro _ w₃ hw₃ _
    exact (persist_upholds hs hw₃).mono fun _ _ _ _ => trivial
  · intro _ w₂ hw₂ _
    exact Upholds.raise hw₂

theorem apply_upholds (config : Configuration) (hw : Safe S L w) :
    Upholds (Safe S L) (apply S config) w fun _ _ => True := by
  apply Upholds.bind (idle_upholds hw)
  rintro _ w₁ hw₁ rfl
  apply Upholds.bind (Upholds.lift (Q := fun _ w' => w' = w₁ ∧ validate config = .ok ()) hw₁
    fun _ hc => ⟨rfl, hc⟩)
  rintro _ w₂ hw₂ ⟨rfl, hc⟩
  apply Upholds.bind (checkHostname_upholds config hw₂)
  rintro _ w₃ hw₃ ⟨rfl, hm⟩
  apply Upholds.bind (validateConfiguration_upholds hs config hw₃)
  intro _ w₄ hw₄ _
  apply Upholds.get
  apply Upholds.bind (Upholds.require (Q := fun _ w' => w' = w₄) hw₄ fun _ => rfl)
  rintro _ w₅ hw₅ rfl
  apply Upholds.attempt
  · exact applyForward_upholds hs hc hm hw₅
  · intro e w₆ hw₆ _
    apply Upholds.bind (applyRollback_upholds hs hw₅.memory.valid
      (fun hB => (hw₅.memory.named hB).2) hw₆)
    intro _ w₇ hw₇ _
    exact Upholds.raise hw₇

/-! ### Network transactions -/

theorem remaining_upholds (s : State) (hw : Safe S L w) :
    Upholds (Safe S L) (remaining s) w fun _ _ => True := by
  unfold remaining
  split
  · apply Upholds.bind (readClock_upholds hs hw)
    intro t w₁ hw₁ _
    split
    · apply Upholds.bind (readClock_upholds hs hw₁)
      intro t w₂ hw₂ _
      exact Upholds.pure hw₂ trivial
    · exact Upholds.pure hw₁ trivial
  · exact Upholds.pure hw trivial

theorem networkTransaction_upholds (hw : Safe S L w) :
    Upholds (Safe S L) (networkTransaction S) w fun _ _ => True := by
  apply Upholds.bind (tick_upholds hs hw)
  intro _ w₁ hw₁ _
  apply Upholds.get
  apply Upholds.bind (remaining_upholds hs _ hw₁)
  intro _ w₂ hw₂ _
  exact Upholds.pure hw₂ trivial

/-- What a proposal has passed. -/
structure Checked (p : NetworkProposal) : Prop where
  network : validateNetwork p.network = .ok ()
  previous : validHash p.previousSettingsHash = true
  candidate : validHash p.candidateSettingsHash = true

theorem checkProposal_upholds (p : NetworkProposal) (hw : Safe S L w) :
    Upholds (Safe S L) (checkProposal S p) w fun _ _ => Checked p := by
  apply Upholds.bind (idle_upholds hw)
  rintro _ w₁ hw₁ rfl
  apply Upholds.get
  apply Upholds.bind (Upholds.lift (Q := fun _ _ =>
    validate (withNetwork w₁.state.configuration p.network) = .ok ()) hw₁ fun _ hc => hc)
  intro _ w₂ hw₂ hc
  apply Upholds.bind (checkHostname_upholds _ hw₂)
  intro _ w₃ hw₃ _
  apply Upholds.bind (validateConfiguration_upholds hs _ hw₃)
  intro _ w₄ hw₄ _
  apply Upholds.bind (Upholds.require (Q := fun _ _ => validHash p.previousSettingsHash = true ∧
    validHash p.candidateSettingsHash = true) hw₄ (by
      intro hv
      simp only [Bool.and_eq_true] at hv
      exact hv.1))
  intro _ w₅ hw₅ hv
  apply Upholds.bind (fileHash_upholds hs hw₅)
  intro h w₆ hw₆ _
  exact Upholds.require hw₆ fun _ => ⟨validate_network hc, hv.1, hv.2⟩

theorem beginNetwork_upholds (p : NetworkProposal) {actor requestId : Bytes}
    (hl : L.network actor requestId) (hw : Safe S L w) :
    Upholds (Safe S L) (beginNetwork S p actor requestId) w fun _ _ => True := by
  apply Upholds.bind (checkProposal_upholds hs p hw)
  intro _ w₁ hw₁ hp
  apply Upholds.bind (randomId_upholds hs hw₁)
  intro id w₂ hw₂ hid
  apply Upholds.bind (readClock_upholds hs hw₂)
  intro t w₃ hw₃ _
  apply Upholds.get
  apply Upholds.bind (setState_upholds hw₃
    (hw₃.memory.proposed hp.network hp.previous hp.candidate hid.2 hl) rfl)
  intro _ w₄ hw₄ _
  apply Upholds.bind (persist_upholds hs hw₄)
  intro _ w₅ hw₅ _
  apply Upholds.bind (P := fun _ _ => True)
  · apply Upholds.attempt
    · exact (platformCall_upholds hs _ hw₅).mono fun _ _ _ _ => trivial
    · intro e w₆ hw₆ _
      apply Upholds.bind (settleNetwork_upholds hs false false .recovery hw₆)
      intro _ w₇ hw₇ _
      exact Upholds.raise hw₇
  · intro _ w₆ hw₆ _
    apply Upholds.get
    apply Upholds.bind (event_upholds hw₆ (hs.pending _ hw₆.memory.pending.caller))
    intro _ w₇ hw₇ _
    exact networkTransaction_upholds hs hw₇

omit hs in
theorem checkId_upholds (id : Bytes) (hw : Safe S L w) :
    Upholds (Safe S L) (checkId id) w fun _ _ => True := by
  apply Upholds.get
  exact Upholds.require hw fun _ => trivial

theorem prepareNetworkCommit_upholds (id : Bytes) (hw : Safe S L w) :
    Upholds (Safe S L) (prepareNetworkCommit S id) w fun _ _ => True := by
  apply Upholds.bind (tick_upholds hs hw)
  intro _ w₁ hw₁ _
  apply Upholds.bind (checkId_upholds id hw₁)
  intro _ w₂ hw₂ _
  apply Upholds.get
  split
  · exact Upholds.pure hw₂ trivial
  · apply Upholds.bind (fileHash_upholds hs hw₂)
    intro h w₃ hw₃ _
    apply Upholds.bind (Upholds.require (Q := fun _ _ => True) hw₃ fun _ => trivial)
    intro _ w₄ hw₄ _
    apply Upholds.bind (readClock_upholds hs hw₄)
    intro t w₅ hw₅ _
    apply Upholds.bind (setState_upholds hw₅ (hw₅.memory.prepare (Nat.mod_lt _ (by decide))) rfl)
    intro _ w₆ hw₆ _
    exact (persist_upholds hs hw₆).mono fun _ _ _ _ => trivial

theorem checkFinish_upholds (commit : Bool) (hw : Safe S L w) :
    Upholds (Safe S L) (checkFinish S commit) w fun _ _ => True := by
  apply Upholds.get
  split
  · apply Upholds.bind (fileHash_upholds hs hw)
    intro h w₁ hw₁ _
    split
    · exact Upholds.require hw₁ fun _ => trivial
    · exact Upholds.require hw₁ fun _ => trivial
  · exact Upholds.require hw fun _ => trivial

theorem finishNetwork_upholds (id : Bytes) (commit : Bool) {actor requestId : Bytes}
    (hl : L.network actor requestId) (hw : Safe S L w) :
    Upholds (Safe S L) (finishNetwork S id commit actor requestId) w fun _ _ => True := by
  apply Upholds.get
  by_cases hc : (id == w.state.pending.transaction.id &&
      w.state.pending.transaction.state == (if commit then .committed else .rolledBack)) = true
  · rw [if_pos hc]
    exact Upholds.pure hw trivial
  · rw [if_neg hc]
    apply Upholds.bind (checkId_upholds id hw)
    intro _ w₁ hw₁ _
    apply Upholds.bind (checkFinish_upholds hs commit hw₁)
    intro _ w₂ hw₂ _
    apply Upholds.bind (setState_upholds hw₂ (hw₂.memory.relabel hl) rfl)
    intro _ w₃ hw₃ _
    exact (settleNetwork_upholds hs commit false .cancel hw₃).mono fun _ _ _ _ => trivial

/-! ### Jobs -/

theorem acceptJob_upholds {job : Job} (reset : Bool) {actor requestId : Bytes} (hid : L.id job.id)
    (ha : job.action ≠ .none) (hl : L.job actor requestId) (hw : Safe S L w) :
    Upholds (Safe S L) (acceptJob job reset actor requestId) w fun _ _ => True := by
  have hset : Upholds (Safe S L) (setState (fun s => { s with
      job := job, resetIntent := s.resetIntent || reset
      jobActor := actor, jobRequestId := requestId }) [.created job]) w
      fun _ w' => w'.state.job = job := by
    apply Upholds.modify
    · exact ⟨⟨hw.stored, hw.present, hw.events, hw.ids⟩, hw.memory.accept hid ha hl, fun _ => ha⟩
    · rfl
  apply Upholds.bind hset
  intro _ w₁ hw₁ h₁
  apply Upholds.bind (persist_upholds hs hw₁)
  intro _ w₂ hw₂ h₂
  have hj₂ : w₂.state.job.action ≠ .none := by
    rw [h₂, h₁]
    exact ha
  apply Upholds.get
  apply Upholds.bind (event_upholds hw₂ (hs.requested _ hw₂.memory.jobCaller hj₂))
  intro _ w₃ hw₃ h₃
  apply Upholds.bind (readClock_upholds hs hw₃)
  intro t w₄ hw₄ h₄
  have hj₄ : w₄.state.job.action ≠ .none := by
    rw [h₄.1, h₃]
    exact hj₂
  apply Upholds.bind (arm_upholds _ hw₄ hj₄)
  intro _ w₅ hw₅ _
  exact Upholds.pure hw₅ trivial

theorem power_upholds (action : PowerAction) {actor requestId : Bytes} (hl : L.job actor requestId)
    (hw : Safe S L w) : Upholds (Safe S L) (power action actor requestId) w fun _ _ => True := by
  apply Upholds.bind (idle_upholds hw)
  rintro _ w₁ hw₁ rfl
  apply Upholds.bind (Upholds.require (Q := fun _ _ => True) hw₁ fun _ => trivial)
  intro _ w₂ hw₂ _
  apply Upholds.bind (randomId_upholds hs hw₂)
  intro id w₃ hw₃ hid
  apply acceptJob_upholds hs false hid.2 _ hl hw₃
  cases action with
  | reboot => simp
  | shutdown => simp

theorem resetDevice_upholds (confirmed : Bool) {actor requestId : Bytes} (hl : L.job actor requestId)
    (hw : Safe S L w) :
    Upholds (Safe S L) (resetDevice S confirmed actor requestId) w fun _ _ => True := by
  have hlast : ∀ {u : World}, Safe S L u → Upholds (Safe S L)
      (randomId >>= fun id => acceptJob ⟨id, .deviceReset, .accepted⟩ true actor requestId) u
      fun _ _ => True := by
    intro u hu
    apply Upholds.bind (randomId_upholds hs hu)
    intro id w₁ hw₁ hid
    exact acceptJob_upholds hs true hid.2 (by simp) hl hw₁
  apply Upholds.bind (Upholds.require (Q := fun _ _ => True) hw fun _ => trivial)
  intro _ w₁ hw₁ _
  apply Upholds.bind (idle_upholds hw₁)
  rintro _ w₂ hw₂ rfl
  dsimp only
  split
  · apply Upholds.bind (storageStatus_upholds hs _ hw₂)
    rintro ⟨factoryReset, _⟩ w₃ hw₃ _
    apply Upholds.bind (Upholds.require (Q := fun _ _ => True) hw₃ fun _ => trivial)
    intro _ w₄ hw₄ _
    exact hlast hw₄
  · exact hlast hw₂

/-! ### Calls -/

/-- Every call but `start` keeps the whole invariant, however it ends. -/
theorem call_upholds {op : Op} (hop : op.starts = false) (hl : L.grants op) (hw : Safe S L w) :
    Upholds (Safe S L) (call S op) w fun _ _ => True := by
  have done : ∀ {γ : Type} {m : Prog γ} {f : γ → Reply},
      Upholds (Safe S L) m w (fun _ _ => True) →
      Upholds (Safe S L) (m >>= fun a => pure (f a)) w fun _ _ => True := by
    intro γ m f h
    apply Upholds.bind h
    intro a w' hw' _
    exact Upholds.pure hw' trivial
  cases op with
  | bootstrap => exact done (bootstrap_upholds hs hw)
  | start => simp [Op.starts] at hop
  | tick => exact done (tick_upholds hs hw)
  | apply config => exact done (apply_upholds hs config hw)
  | beginNetwork p actor requestId => exact done (beginNetwork_upholds hs p hl hw)
  | networkTransaction => exact done (networkTransaction_upholds hs hw)
  | prepareNetworkCommit id => exact done (prepareNetworkCommit_upholds hs id hw)
  | finishNetwork id commit actor requestId => exact done (finishNetwork_upholds hs id commit hl hw)
  | power action actor requestId => exact done (power_upholds hs action hl hw)
  | resetDevice confirmed actor requestId => exact done (resetDevice_upholds hs confirmed hl hw)

end Backend

/-! ### Calls with their marks, and processes -/

section Perform
variable (hs : Surroundings S L)
include hs

theorem checkpoint_upholds (hw : Safe S L w) :
    Upholds (Safe S L) checkpoint w fun _ _ => True :=
  (quiet_upholds hs hw fun _ u => Agree.refl u).mono fun _ _ _ _ => trivial

omit hs in
/-- The marks of a call are in the history only. -/
theorem perform_world (op : Op) (script : List Choice) (w : World) :
    Agree (guarded S op (entered op script w)).2 (perform S op script w).2 := by
  unfold perform
  rcases guarded S op (entered op script w) with ⟨o, w'⟩
  cases o with
  | ret r => exact ⟨rfl, rfl, rfl, rfl, rfl⟩
  | raise e => exact ⟨rfl, rfl, rfl, rfl, rfl⟩
  | crash => exact ⟨rfl, rfl, rfl, rfl, rfl⟩

omit hs in
theorem Safe.enter (hw : Safe S L w) (op : Op) {script : List Choice}
    (hi : ∀ c ∈ script, L.id c.id) : Safe S L (entered op script w) :=
  ⟨⟨hw.stored, hw.present, hw.events, hi⟩, hw.memory, hw.armed⟩

theorem perform_safe {op : Op} {script : List Choice} (hop : op.starts = false) (hl : L.grants op)
    (hi : ∀ c ∈ script, L.id c.id) (hw : Safe S L w) : Safe S L (perform S op script w).2 := by
  have hg : Upholds (Safe S L) (guarded S op) (entered op script w) fun _ _ => True := by
    apply Upholds.bind (Backend.call_upholds hs hop hl (hw.enter op hi))
    intro r w₁ hw₁ _
    apply Upholds.bind (checkpoint_upholds hs hw₁)
    intro _ w₂ hw₂ _
    exact Upholds.pure hw₂ trivial
  exact hg.kept.agree (perform_world op script w)

/-- A start that raises leaves the durable part, one that returns the whole. -/
theorem perform_start {script : List Choice} (hi : ∀ c ∈ script, L.id c.id) (hw : Safe S L w) :
    Durable S L (perform S .start script w).2 ∧
      ∀ r w', perform S .start script w = (.ret r, w') → Safe S L w' := by
  have hg : Upholds (Durable S L) (guarded S .start) (entered .start script w)
      fun _ w' => Safe S L w' := by
    have hcall : Upholds (Durable S L) (Backend.call S .start) (entered .start script w)
        fun _ w' => Safe S L w' := by
      apply Upholds.bind (Backend.start_upholds hs (hw.enter .start hi))
      intro _ w₁ hd₁ hw₁
      exact Upholds.pure hd₁ hw₁
    apply Upholds.bind hcall
    intro r w₁ _ hw₁
    apply Upholds.bind ((checkpoint_upholds hs hw₁).weaken fun _ h => h.toDurable)
    rintro _ w₂ hd₂ ⟨hw₂, -⟩
    exact Upholds.pure hd₂ hw₂
  refine ⟨hg.kept.agree (perform_world .start script w), ?_⟩
  intro r w' h
  unfold perform at h
  rcases hgw : guarded S .start (entered .start script w) with ⟨o, w₁⟩
  rw [hgw] at h
  cases o with
  | ret r' =>
    injection h with _ h
    subst h
    exact (hg.post r' w₁ hgw).agree ⟨rfl, rfl, rfl, rfl, rfl⟩
  | raise e => simp at h
  | crash => simp at h

end Perform

/-- The invariant of a device between calls: the durable part always, and memory while there is
a process. -/
structure Sustained (S : Site) (L : Limits) (w : World) : Prop where
  durable : Durable S L w
  running : w.alive = true → Safe S L w

theorem Sustained.of_safe (h : Safe S L w) : Sustained S L w := ⟨h.toDurable, fun _ => h⟩

theorem Sustained.of_dead (h : Durable S L w) (ha : w.alive = false) : Sustained S L w := by
  refine ⟨h, ?_⟩
  intro h
  rw [ha] at h
  simp at h

theorem Durable.rescript (h : Durable S L w) {script : List Choice} (hi : ∀ c ∈ script, L.id c.id)
    (alive : Bool) : Durable S L { w with alive := alive, script := script } :=
  ⟨h.stored, h.present, h.events, hi⟩

/-- A new process reads the journal. -/
theorem restart_sustained (hs : Surroundings S L) {script : List Choice}
    (hi : ∀ c ∈ script, L.id c.id) (h : Durable S L w) :
    Sustained S L (step S w (.restart script)) := by
  have h₀ := (h.rescript hi false).draw hs
  have hc := draw_core { w with alive := false, script := script }
  change Sustained S L (Backend.construct S { w with alive := false, script := script }).2
  rw [Backend.construct, effect_apply]
  generalize ({ w with alive := false, script := script } : World).draw = d at h₀ hc ⊢
  split
  · exact Sustained.of_dead (h₀.agree ⟨rfl, rfl, rfl, rfl, rfl⟩) rfl
  · have ha := authority_agree d.1.writes
    split
    · refine Sustained.of_dead (h₀.agree (ha d.2)) ?_
      rw [(authority_frame d.1.writes d.2).alive, hc]
    · have hnew : Safe S L { d.2 with
          alive := true, state := Backend.loaded S.profile d.2.journal, failed := false
          jobDeadline := 0, nextObservation := 0, carriers := [], trace := .constructed :: d.2.trace } :=
        ⟨⟨h₀.stored, h₀.present, h₀.events, h₀.ids⟩, wellFormed_loaded hs h₀, fun hn => absurd rfl hn⟩
      exact Sustained.of_safe (hnew.agree (ha _))

end Monutchee.System
