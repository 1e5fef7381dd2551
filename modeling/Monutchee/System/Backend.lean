import Monutchee.System.World

/-!
# The Backend (storage.cpp)

The class `Backend`, method by method, in the order of the source. Every method is a
program over the world; assignments to `state_` are `modify`, calls of the platform, the
clock, the random source and the file system are effects.
-/

namespace Monutchee.System
open Lib Lib.Act

namespace State

/-- settleNetwork's assignments (storage.cpp:238-240). -/
def settle (s : State) (commit : Bool) : State :=
  { s with
    configuration := { s.configuration with
      system := { s.configuration.system with network := s.next commit } }
    pending := { s.pending with
      transaction := { s.pending.transaction with
        state := if commit then .committed else .rolledBack
        remainingMs := 0 } } }

/-- prepareNetworkCommit's assignments (storage.cpp:410-411). -/
def prepare (s : State) (deadline : ℕ) : State :=
  { s with pending := { s.pending with
      transaction := { s.pending.transaction with state := .committing }
      deadline := deadline } }

def relabel (s : State) (actor requestId : Bytes) : State :=
  { s with pending := { s.pending with actor := actor, requestId := requestId } }

def configure (s : State) (c : Configuration) : State :=
  { s with configuration := c, initialized := true }

def setJob (s : State) (state : JobState) : State := { s with job := { s.job with state := state } }

def setHostname (s : State) (name : Bytes) : State :=
  { s with configuration := { s.configuration with
      system := { s.configuration.system with hostname := name } } }

/-- The reset branch of bootstrap before its policies are applied (storage.cpp:271-273),
and after (storage.cpp:277-278). -/
def wipe (s : State) (defaults : Configuration) : State :=
  { s with configuration := defaults, initialized := true, pending := {} }

def completeReset (s : State) : State :=
  { s with resetIntent := false, job := { s.job with state := .completed } }

end State

namespace Backend

def recoveryError : Error := ⟨.unavailable, ascii "system journal requires recovery"⟩

def setState (f : State → State) (mark : List Entry := []) : Prog Unit :=
  modify fun w => { w with state := f w.state, trace := mark ++ w.trace }

def event (e : UserEvent) : Prog Unit := modify fun w => { w with events := w.events ++ [e] }

/-! ### Construction (storage.cpp:163-177) -/

/-- Old journals predate a selectable port. -/
def migrate (P : Profile) (s : State) : State :=
  if s.configuration.time.ptpInterface.isEmpty then
    { s with configuration := { s.configuration with
        time := { s.configuration.time with ptpInterface := P.defaults.time.ptpInterface } } }
  else s

@[simp] theorem migrate_initialized (P : Profile) (s : State) :
    (migrate P s).initialized = s.initialized := by
  unfold migrate
  split <;> rfl

@[simp] theorem migrate_resetIntent (P : Profile) (s : State) :
    (migrate P s).resetIntent = s.resetIntent := by
  unfold migrate
  split <;> rfl

@[simp] theorem migrate_pending (P : Profile) (s : State) : (migrate P s).pending = s.pending := by
  unfold migrate
  split <;> rfl

@[simp] theorem migrate_system (P : Profile) (s : State) :
    (migrate P s).configuration.system = s.configuration.system := by
  unfold migrate
  split <;> rfl

/-- What the constructor makes of the journal, or of its absence. -/
def loaded (P : Profile) (journal : Option State) : State :=
  migrate P (journal.getD { configuration := P.defaults })

def construct (S : Site) : Prog Unit := effect fun c w =>
  if c.fails then (.raise c.error, w)
  else
    (.ret (), { w with
      alive := true
      state := loaded S.profile w.journal
      failed := false
      jobDeadline := 0
      nextObservation := 0
      carriers := []
      trace := .constructed :: w.trace })

/-! ### Link observation (storage.cpp:189-209) -/

def linkEvent (link : NetworkStatus) : UserEvent where
  priority := if link.carrier then .info else .warning
  code := if link.carrier then ascii "network_recovered" else ascii "network_down"
  category := ascii "network"
  message := if link.carrier then ascii "Network connection restored" else ascii "Network connection lost"
  actor := ascii "system"
  action := ascii "link"
  outcome := if link.carrier then ascii "recovered" else ascii "failed"
  subject := link.interface

def observeLink (S : Site) (link : NetworkStatus) : Prog Unit := do
  if S.profile.interfaces.contains link.interface then
    let carriers ← gets (·.carriers)
    match carriers.lookup link.interface with
    | some previous => if previous != link.carrier then event (linkEvent link)
    | none => pure ()
    modify fun w => { w with
      carriers := (link.interface, link.carrier) :: w.carriers.filter (·.1 != link.interface) }

def observeNetwork (S : Site) : Prog Unit :=
  attempt
    (do
      let links ← platformNetworkLinks
      modify fun w => { w with
        carriers := w.carriers.filter fun previous => links.any (·.interface == previous.1) }
      each (observeLink S) links)
    fun _ => pure ()

/-! ### Journal and guards (storage.cpp:210-233) -/

def persist : Prog Unit := do
  require (!(← gets (·.failed))) recoveryError
  attempt writeJournal fun e => do
    modify fun w => { w with failed := true }
    raise e

def idle : Prog Unit := do
  require (!(← gets (·.failed))) recoveryError
  let s ← gets (·.state)
  require (!(s.isOpen || s.job.state == .accepted || s.resetIntent))
    ⟨.busy, ascii "another system transaction is in progress"⟩

def checkId (id : Bytes) : Prog Unit := do
  let s ← gets (·.state)
  require (s.isOpen && id == s.pending.transaction.id)
    ⟨.invalidArgument, ascii "network transaction is no longer pending"⟩

/-! ### Settling a transaction (storage.cpp:234-252) -/

inductive Reason where
  | recovery | cancel | timeout
  deriving DecidableEq, Repr

def settleEvent (s : State) (commit : Bool) (reason : Reason) : UserEvent where
  code :=
    if commit then ascii "network_configuration_committed"
    else match reason with
      | .cancel => ascii "network_configuration_cancelled"
      | .timeout => ascii "network_configuration_timed_out"
      | .recovery => ascii "network_configuration_rolled_back"
  category := ascii "network"
  message :=
    if commit then ascii "Network settings confirmed"
    else match reason with
      | .cancel => ascii "Network settings cancelled"
      | .timeout => ascii "Network settings confirmation timed out"
      | .recovery => ascii "Network settings restored"
  actor := s.pending.actor
  action := ascii "configure_network"
  outcome := if commit then ascii "completed" else ascii "rolled_back"
  subject := ascii "network"
  requestId := s.pending.requestId

def settleNetwork (commit bootstrap : Bool) (reason : Reason) : Prog Unit := do
  let s ← gets (·.state)
  -- The journal is kept until the platform accepted the network; failures are retryable.
  platformNetwork (s.next commit) bootstrap
  setState (·.settle commit) [.settled commit s.pending.transaction.id (s.settle commit).configuration]
  persist
  event (settleEvent (s.settle commit) commit reason)

def recoverNetwork (S : Site) (bootstrap : Bool) : Prog Unit := do
  let s ← gets (·.state)
  if s.isOpen then
    let committed ←
      if s.pending.transaction.state == .committing then
        (do let h ← fileHash S; pure (h == s.pending.candidateHash))
      else pure false
    settleNetwork committed bootstrap (if bootstrap then .recovery else .timeout)

/-- The settings file is read only in the state "committing". -/
theorem recoverNetwork_apply (S : Site) (bootstrap : Bool) (w : World) :
    recoverNetwork S bootstrap w =
      if w.state.isOpen then
        if w.state.pending.transaction.state == .committing then
          (fileHash S >>= fun h => settleNetwork (h == w.state.pending.candidateHash) bootstrap
            (if bootstrap then .recovery else .timeout)) w
        else settleNetwork false bootstrap (if bootstrap then .recovery else .timeout) w
      else (.ret (), w) := by
  unfold recoverNetwork
  rw [gets_bind]
  by_cases ho : w.state.isOpen = true
  · rw [if_pos ho, if_pos ho]
    by_cases hc : (w.state.pending.transaction.state == .committing) = true
    · simp only [if_pos hc]
      rw [bind_assoc]
      rfl
    · simp only [if_neg hc]
      rfl
  · rw [if_neg ho, if_neg ho]
    rfl

/-! ### Bootstrap and start (storage.cpp:264-323) -/

def jobEvent (s : State) (priority : Priority) (code message outcome : Bytes) : UserEvent where
  priority := priority
  code := code
  category := ascii "administration"
  message := message
  actor := s.jobActor
  action := s.job.action.text
  outcome := outcome
  subject := ascii "device"
  requestId := s.jobRequestId

/-- The three policy calls that each branch of bootstrap makes. -/
def bootPolicy : Prog Unit := do
  let s ← gets (·.state)
  platformNetwork s.network true
  platformSshBootPolicy s.configuration.system.sshEnabled
  platformClockBootPolicy s.configuration.time

/-- The reset branch after its storage check (storage.cpp:268-281). -/
def bootstrapErase (S : Site) : Prog Unit := do
  -- Intent survives every deletion and is cleared only after all work succeeds.
  each (durableRemove S) S.profile.resetPaths
  setState (·.wipe S.profile.defaults) [.cleared]
  bootPolicy
  setState State.completeReset
  persist
  let s ← gets (·.state)
  event { jobEvent s .info (ascii "device_reset_completed") (ascii "Device reset completed")
    (ascii "completed") with action := ascii "device_reset" }

def bootstrapReset (S : Site) : Prog Unit := do
  if !S.profile.storageStatusFile.isEmpty then
    let (_, resetPrepared) ← storageStatus S.profile.storageStatusFile
    require resetPrepared ⟨.unavailable, ascii "storage reset recovery did not complete"⟩
  bootstrapErase S

def bootstrapInitial (b : BootPreferences) : Prog Unit := do
  setState fun s => { s with configuration := b.initial }
  bootPolicy
  setState fun s => { s with initialized := true }
  persist

def bootstrapHostname (b : BootPreferences) : Prog Unit := do
  setState (·.setHostname b.managedHostname)
  platformBootHostname b.managedHostname
  persist

def bootstrap (S : Site) : Prog Unit := do
  let s ← gets (·.state)
  if s.resetIntent then bootstrapReset S
  else if s.initialized then
    recoverNetwork S true
    bootPolicy
  else
    match S.profile.bootPreferences with
    | some b => bootstrapInitial b
    | none => platformClockBootPolicy S.profile.defaults.time
  match S.profile.bootPreferences with
  | some b => bootstrapHostname b
  | none => pure ()

def startDiscover : Prog Unit := do
  let c ← platformDiscover
  setState fun s => { s with configuration := c }
  lift (Validation.validate c)
  setState fun s => { s with initialized := true }
  persist

def startInterrupt : Prog Unit := do
  let s ← gets (·.state)
  if s.job.state == .accepted then
    setState (·.setJob .interrupted) [.found s.job]
    persist
    let s ← gets (·.state)
    event (jobEvent s .warning (ascii "system_operation_interrupted")
      (ascii "System operation interrupted") (ascii "interrupted"))

def start (S : Site) : Prog Unit := do
  let s ← gets (·.state)
  if s.resetIntent then
    let t ← readClock
    modify fun w => { w with jobDeadline := add64 t 5000 }
  else
    if !s.initialized then startDiscover
    recoverNetwork S false
    startInterrupt

/-! ### Tick (storage.cpp:462-490) -/

/-- The power call and its failure (storage.cpp:477-488). -/
def dispatchPower : Prog Unit := do
  let s ← gets (·.state)
  attempt
    (do
      platformPower (if s.job.action == .shutdown then .shutdown else .reboot)
      event (jobEvent s .info (ascii "system_operation_dispatched")
        (ascii "System operation dispatched") (ascii "dispatched")))
    fun e => do
      setState (·.setJob .failed)
      persist
      event (jobEvent s .error (ascii "system_operation_failed")
        (ascii "System operation failed") (ascii "failed"))
      raise e

def dispatch : Prog Unit := do
  modify fun w => { w with jobDeadline := 0 }
  -- The handoff is durable before the power call can stop this process.
  setState (·.setJob .dispatched) [.dispatching]
  persist
  dispatchPower

def tickObserve (S : Site) : Prog Unit := do
  let t ← readClock
  if (← gets (·.nextObservation)) ≤ t then
    let t ← readClock
    modify fun w => { w with nextObservation := add64 t 1000 }
    observeNetwork S

def tickExpire (S : Site) : Prog Unit := do
  let s ← gets (·.state)
  if s.isOpen then
    let t ← readClock
    if s.pending.deadline ≤ t then recoverNetwork S false

def tickDispatch : Prog Unit := do
  let deadline ← gets (·.jobDeadline)
  if deadline != 0 then
    let t ← readClock
    if deadline ≤ t then dispatch

def tick (S : Site) : Prog Unit := do
  require (!(← gets (·.failed))) recoveryError
  tickObserve S
  tickExpire S
  tickDispatch

/-! ### Preferences (storage.cpp:329-357) -/

def applyForward (config : Configuration) : Prog Unit := do
  platformPreferences config
  platformSshBootPolicy config.system.sshEnabled
  setState (·.configure config)
  persist

def applyRollback (previous : Configuration) : Prog Unit := do
  setState fun s => { s with configuration := previous }
  attempt
    (do
      platformPreferences previous
      platformSshBootPolicy previous.system.sshEnabled
      persist)
    fun _ => raise ⟨.applyFailed, ascii "preferences failed and rollback needs recovery"⟩

def checkHostname (S : Site) (config : Configuration) : Prog Unit :=
  match S.profile.bootPreferences with
  | some b => require (config.system.hostname == b.managedHostname)
      ⟨.invalidArgument, ascii "hostname is managed by production identity"⟩
  | none => pure ()

def apply (S : Site) (config : Configuration) : Prog Unit := do
  idle
  lift (Validation.validate config)
  checkHostname S config
  platformValidateConfiguration config
  let s ← gets (·.state)
  require (!(s.initialized && config.system.network != s.network))
    ⟨.invalidArgument, ascii "network changes require a confirmation transaction"⟩
  attempt (applyForward config) fun e => do
    applyRollback s.configuration
    raise e

/-! ### Network transactions (storage.cpp:358-429) -/

def validHash (s : Bytes) : Bool :=
  s.length == 64 && s.all fun c => (48 ≤ c && c ≤ 57) || (97 ≤ c && c ≤ 102)

def remaining (s : State) : Prog ℕ := do
  if s.isOpen then
    let t ← readClock
    if t < s.pending.deadline then
      let t ← readClock
      pure ((s.pending.deadline + 2^64 - t) % 2^64)
    else pure 0
  else pure 0

def networkTransaction (S : Site) : Prog NetworkTransaction := do
  tick S
  let s ← gets (·.state)
  let ms ← remaining s
  pure { s.pending.transaction with remainingMs := ms }

def proposed (s : State) (p : NetworkProposal) (id actor requestId : Bytes) (t : ℕ) : Pending where
  transaction :=
    { id := id, state := .pending, remainingMs := 120000, network := p.network
      message := ascii "Confirm within 120 seconds to retain these addresses" }
  previous := s.network
  previousHash := p.previousSettingsHash
  candidateHash := p.candidateSettingsHash
  deadline := add64 t 120000
  actor := actor
  requestId := requestId

def withNetwork (c : Configuration) (n : Network) : Configuration :=
  { c with system := { c.system with network := n } }

def settingsChanged : Error := ⟨.invalidArgument, ascii "settings changed before network proposal"⟩

/-- The checks of beginNetwork (storage.cpp:359-374). -/
def checkProposal (S : Site) (p : NetworkProposal) : Prog Unit := do
  idle
  let s ← gets (·.state)
  lift (Validation.validate (withNetwork s.configuration p.network))
  checkHostname S (withNetwork s.configuration p.network)
  platformValidateConfiguration (withNetwork s.configuration p.network)
  require (validHash p.previousSettingsHash && validHash p.candidateSettingsHash &&
    p.previousSettingsHash != p.candidateSettingsHash) settingsChanged
  let h ← fileHash S
  require (h == p.previousSettingsHash) settingsChanged

def pendingEvent (s : State) : UserEvent where
  code := ascii "network_configuration_pending"
  category := ascii "network"
  message := ascii "Network settings await confirmation"
  actor := s.pending.actor
  action := ascii "configure_network"
  outcome := ascii "pending"
  subject := ascii "network"
  requestId := s.pending.requestId

def beginNetwork (S : Site) (p : NetworkProposal) (actor requestId : Bytes) :
    Prog NetworkTransaction := do
  checkProposal S p
  let id ← randomId
  let t ← readClock
  let s ← gets (·.state)
  setState (fun s => { s with pending := proposed s p id actor requestId t })
    [.begun id s.configuration s.initialized]
  persist
  attempt (platformNetwork p.network false) fun e => do
    settleNetwork false false .recovery
    raise e
  event (pendingEvent (← gets (·.state)))
  networkTransaction S

def prepareNetworkCommit (S : Site) (id : Bytes) : Prog Unit := do
  tick S
  checkId id
  let s ← gets (·.state)
  if s.pending.transaction.state == .committing then pure ()
  else
    let h ← fileHash S
    require (h == s.pending.previousHash)
      ⟨.invalidArgument, ascii "settings changed during network proposal"⟩
    let t ← readClock
    setState (·.prepare (add64 t 30000))
    persist

/-- The two checks of the settings hash in finishNetwork (storage.cpp:419-425); the hash is
read only in the state "committing". -/
def checkFinish (S : Site) (commit : Bool) : Prog Unit := do
  let s ← gets (·.state)
  if s.pending.transaction.state == .committing then
    let h ← fileHash S
    if commit then
      require (h == s.pending.candidateHash)
        ⟨.invalidArgument, ascii "candidate settings have not been persisted"⟩
    else
      require (h != s.pending.candidateHash)
        ⟨.busy, ascii "network settings already committed"⟩
  else
    require (!commit) ⟨.invalidArgument, ascii "candidate settings have not been persisted"⟩

def finishNetwork (S : Site) (id : Bytes) (commit : Bool) (actor requestId : Bytes) :
    Prog Unit := do
  let s ← gets (·.state)
  if id == s.pending.transaction.id &&
      s.pending.transaction.state == (if commit then .committed else .rolledBack) then pure ()
  else
    checkId id
    checkFinish S commit
    setState (·.relabel actor requestId)
    settleNetwork commit false .cancel

/-! ### Power and reset (storage.cpp:430-461) -/

def requestEvent (s : State) : UserEvent :=
  if s.job.action == .deviceReset then
    jobEvent s .info (ascii "device_reset_requested") (ascii "Device reset requested") (ascii "accepted")
  else
    jobEvent s .info (ascii "power_requested") (ascii "Power operation requested") (ascii "accepted")

/-- What power and resetDevice share: the job is recorded, announced and scheduled. -/
def acceptJob (job : Job) (reset : Bool) (actor requestId : Bytes) : Prog Job := do
  setState (fun s => { s with
      job := job, resetIntent := s.resetIntent || reset
      jobActor := actor, jobRequestId := requestId })
    [.created job]
  persist
  let s ← gets (·.state)
  event (requestEvent s)
  let t ← readClock
  modify fun w => { w with jobDeadline := add64 t 5000 }
  pure s.job

def power (action : PowerAction) (actor requestId : Bytes) : Prog Job := do
  idle
  require (action == .reboot || action == .shutdown) ⟨.invalidArgument, ascii "invalid power action"⟩
  let id ← randomId
  acceptJob ⟨id, if action == .reboot then .reboot else .shutdown, .accepted⟩ false actor requestId

def resetDevice (S : Site) (confirmed : Bool) (actor requestId : Bytes) : Prog Job := do
  require confirmed ⟨.invalidArgument, ascii "whole-device reset requires explicit confirmation"⟩
  idle
  if !S.profile.storageStatusFile.isEmpty then
    let (factoryReset, _) ← storageStatus S.profile.storageStatusFile
    require factoryReset ⟨.unavailable, ascii "factory reset requires persistent state and data"⟩
  let id ← randomId
  acceptJob ⟨id, .deviceReset, .accepted⟩ true actor requestId

/-! ### Calls -/

inductive Reply where
  | done
  | transaction (t : NetworkTransaction)
  | job (j : Job)
  deriving DecidableEq, Repr

def call (S : Site) : Op → Prog Reply
  | .bootstrap => do bootstrap S; pure .done
  | .start => do start S; pure .done
  | .tick => do tick S; pure .done
  | .apply config => do apply S config; pure .done
  | .beginNetwork p actor requestId => do pure (.transaction (← beginNetwork S p actor requestId))
  | .networkTransaction => do pure (.transaction (← networkTransaction S))
  | .prepareNetworkCommit id => do prepareNetworkCommit S id; pure .done
  | .finishNetwork id commit actor requestId => do
    finishNetwork S id commit actor requestId
    pure .done
  | .power action actor requestId => do pure (.job (← power action actor requestId))
  | .resetDevice confirmed actor requestId => do
    pure (.job (← resetDevice S confirmed actor requestId))

end Backend

end Monutchee.System
