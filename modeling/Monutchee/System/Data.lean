import Mathlib.Algebra.Ring.Nat
import Mathlib.Data.List.Basic

/-!
# Data of the system manager (system.hpp, backend.hpp)

The records that the manager keeps, journals and exchanges. A C++ `std::string` is
a list of bytes. The states of a transaction and of a job, which the source spells
as strings but only ever assigns from a fixed set, are enumerations.
-/

namespace Monutchee.System

abbrev Bytes := List UInt8

def ascii (s : String) : Bytes := s.toList.map fun c => UInt8.ofNat c.toNat

/-- Unsigned 64-bit addition, as in `clock_() + 120000`. -/
def add64 (a b : ℕ) : ℕ := (a + b) % 2^64

theorem add64_of_lt {a b : ℕ} (h : a + b < 2^64) : add64 a b = a + b := Nat.mod_eq_of_lt h

inductive ErrorCode where
  | none | invalidArgument | permissionDenied | unavailable | unsupported | busy
  | applyFailed | timeout | internalError
  deriving DecidableEq, Repr

structure Error where
  code : ErrorCode := .internalError
  message : Bytes := []
  deriving DecidableEq, Repr

inductive NetworkMode where
  | dhcp | staticIpv4
  deriving DecidableEq, Repr

structure NetworkConfig where
  interface : Bytes := []
  mode : NetworkMode := .dhcp
  address : Bytes := []
  prefixLength : UInt8 := 24
  gateway : Bytes := []
  dnsServers : List Bytes := []
  preferredDefault : Bool := false
  deriving DecidableEq, Repr

/-- The part of `NetworkStatus` that the observer reads. -/
structure NetworkStatus where
  interface : Bytes
  carrier : Bool := false
  deriving DecidableEq, Repr

abbrev Network := List NetworkConfig

structure Preferences where
  hostname : Bytes := ascii "mnc"
  sshEnabled : Bool := true
  network : Network := []
  deriving DecidableEq, Repr

structure TimePreferences where
  synchronization : Bytes := ascii "ntp"
  timezone : Bytes := ascii "UTC"
  ptpInterface : Bytes := []
  ntpServers : List Bytes := []
  deriving DecidableEq, Repr

structure Configuration where
  system : Preferences := {}
  time : TimePreferences := {}
  deriving DecidableEq, Repr

/-- Root-owned boot projection (system.hpp:70-75), as loadBootPreferences leaves it. -/
structure BootPreferences where
  schemaVersion : ℕ := 1
  factory : Configuration := {}
  initial : Configuration := {}
  managedHostname : Bytes := []
  deriving DecidableEq, Repr

structure NetworkProposal where
  network : Network := []
  previousSettingsHash : Bytes := []
  candidateSettingsHash : Bytes := []
  deriving DecidableEq, Repr

/-- NetworkTransaction::state: "idle", "pending", "committing", "committed" and
"rolled_back". -/
inductive TransactionState where
  | idle | pending | committing | committed | rolledBack
  deriving DecidableEq, Repr

structure NetworkTransaction where
  id : Bytes := []
  state : TransactionState := .idle
  remainingMs : ℕ := 0
  network : Network := []
  message : Bytes := []
  deriving DecidableEq, Repr

/-- Job::action: empty, "reboot", "shutdown" and "device_reset". -/
inductive JobAction where
  | none | reboot | shutdown | deviceReset
  deriving DecidableEq, Repr

inductive JobState where
  | none | accepted | dispatched | failed | interrupted | completed
  deriving DecidableEq, Repr

structure Job where
  id : Bytes := []
  action : JobAction := .none
  state : JobState := .none
  deriving DecidableEq, Repr

inductive PowerAction where
  | reboot | shutdown
  deriving DecidableEq, Repr

/-- Installed product policy (`backend.hpp:20-39`), less the fields that only the
native adapter and the loader read. -/
structure Profile where
  stateDirectory : Bytes := []
  activeSettings : Bytes := []
  storageStatusFile : Bytes := []
  interfaces : List Bytes := []
  defaults : Configuration := {}
  resetPaths : List Bytes := []
  bootPreferences : Option BootPreferences := none
  deriving DecidableEq, Repr

structure Pending where
  transaction : NetworkTransaction := {}
  previous : Network := []
  previousHash : Bytes := []
  candidateHash : Bytes := []
  deadline : ℕ := 0
  actor : Bytes := ascii "system"
  requestId : Bytes := []
  deriving DecidableEq, Repr

/-- `State` (`backend.hpp:81-89`): what the journal `state.json` holds. -/
structure State where
  configuration : Configuration := {}
  initialized : Bool := false
  pending : Pending := {}
  job : Job := {}
  resetIntent : Bool := false
  jobActor : Bytes := ascii "system"
  jobRequestId : Bytes := []
  deriving DecidableEq, Repr

/-- Backend::pending (storage.cpp:220-223). -/
def TransactionState.isOpen : TransactionState → Bool
  | .pending | .committing => true
  | _ => false

def TransactionState.isSettled : TransactionState → Bool
  | .committed | .rolledBack => true
  | _ => false

namespace State

def isOpen (s : State) : Bool := s.pending.transaction.state.isOpen

def isSettled (s : State) : Bool := s.pending.transaction.state.isSettled

def network (s : State) : Network := s.configuration.system.network

/-- The network that settling a transaction installs (storage.cpp:235). -/
def next (s : State) (commit : Bool) : Network :=
  if commit then s.pending.transaction.network else s.pending.previous

end State

inductive Priority where
  | error | warning | info
  deriving DecidableEq, Repr

/-- UserEvent as Backend::event fills it (storage.cpp:178-188). -/
structure UserEvent where
  priority : Priority := .info
  code : Bytes
  category : Bytes
  message : Bytes
  actor : Bytes
  action : Bytes
  outcome : Bytes
  subject : Bytes
  changedFields : List Bytes := []
  requestId : Bytes := []
  deriving DecidableEq, Repr

def JobAction.text : JobAction → Bytes
  | .none => []
  | .reboot => ascii "reboot"
  | .shutdown => ascii "shutdown"
  | .deviceReset => ascii "device_reset"

end Monutchee.System
