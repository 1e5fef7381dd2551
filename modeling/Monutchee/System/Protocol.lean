import Monutchee.Lib.Path
import Monutchee.System.Backend

/-!
# The protocol behind the Backend

An abstract machine over the core of the world: what the process may do to its memory,
to the journal and to the platform, one move at a time, and under which conditions. It
has no control flow; the conditions that the order of the statements in storage.cpp
establishes are the guards of the moves. `Refinement` shows that every run of the
manager is a path of moves, so an invariant is proved once, move by move, for all calls,
all failures and all points where the process may stop.
-/

namespace Monutchee.System
open Lib Relation

/-! ### Reading the history, newest entry first -/

/-- The network in force as far as the history shows: the argument of the last call of the
platform, nothing after a call that raised, and what discover() then reports. -/
def running (t : List Entry) : Option Network :=
  (t.findSome? fun
    | .network n _ => some (some n)
    | .networkFailed _ _ => some none
    | .discovered c => some (some c.system.network)
    | _ => none).join

/-- The argument of the last call of the platform that returned. -/
def lastApplied (t : List Entry) : Option Network :=
  t.findSome? fun
    | .network n _ => some n
    | _ => none

/-- The call in progress, and whether the journal latch was set when it was made. -/
def callOf (t : List Entry) : Option (Op × Bool) :=
  (t.findSome? fun
    | .call op latched => some (some (op, latched))
    | .returned _ | .raised _ | .cut | .constructed => some none
    | _ => none).join

/-- The settings hash that the running call has read and not yet acted on. -/
def hashRead (t : List Entry) : Option Bytes :=
  (t.findSome? fun
    | .hash h => some (some h)
    | .journal _ _ | .journalFailed _ _ _ => some none
    | .call _ _ | .returned _ | .raised _ | .cut | .constructed => some none
    | _ => none).join

/-- The last bootstrap has not returned: it is running, raised or was cut off. -/
def booting (t : List Entry) : Bool :=
  (t.findSome? fun
    | .call .bootstrap _ => some true
    | .returned .bootstrap => some false
    | _ => none).getD false

def lastBegun (t : List Entry) : Option (Bytes × Configuration × Bool) :=
  t.findSome? fun
    | .begun id c initialized => some (id, c, initialized)
    | _ => none

def lastCreated (t : List Entry) : Option Job :=
  t.findSome? fun
    | .created job => some job
    | _ => none

/-- The running call has created a job and not yet dispatched one. -/
def createdInCall (t : List Entry) : Bool :=
  (t.findSome? fun
    | .created _ => some true
    | .dispatching | .call _ _ | .constructed => some false
    | _ => none).getD false

/-- A job is marked dispatched and its power call is still to be made. -/
def handoff (t : List Entry) : Bool :=
  (t.findSome? fun
    | .dispatching => some true
    | .power _ _ _ | .created _ | .call _ _ | .constructed => some false
    | _ => none).getD false

def lastReading (t : List Entry) : Option ℕ :=
  t.findSome? fun
    | .reading u => some u
    | _ => none

def Entry.isCall : Entry → Bool
  | .call _ _ => true
  | _ => false

/-- The entries since the last call was made. -/
def sinceCall (t : List Entry) : List Entry := t.takeWhile fun e => !e.isCall

def Entry.entersBootstrap : Entry → Bool
  | .call .bootstrap _ => true
  | _ => false

/-- The entries since bootstrap was entered. -/
def sinceBootstrap (t : List Entry) : List Entry := t.takeWhile fun e => !e.entersBootstrap

/-! ### The call in progress -/

/-- Calls that serve a request or the clock. -/
def Op.serves : Op → Bool
  | .bootstrap | .start => false
  | _ => true

def Op.requestsJob : Op → Bool
  | .power _ _ _ | .resetDevice _ _ _ => true
  | _ => false

def Op.boots : Op → Bool
  | .bootstrap => true
  | _ => false

def Op.starts : Op → Bool
  | .start => true
  | _ => false

/-- Calls that reach settleNetwork without a test of the latch. -/
def Op.unguarded : Op → Bool
  | .bootstrap | .start | .finishNetwork _ _ _ _ => true
  | _ => false

def during (p : Op → Bool) (t : List Entry) : Bool :=
  match callOf t with
  | some (op, _) => p op
  | none => false

/-- The call in progress was made on a latched object and does not test the latch. -/
def careless (t : List Entry) : Bool :=
  match callOf t with
  | some (op, true) => op.unguarded
  | _ => false

/-! ### Changes of the in-memory state that are journaled -/

def Idle (s : State) : Prop := s.isOpen = false ∧ s.job.state ≠ .accepted ∧ s.resetIntent = false

/-- The settings hash supports the outcome. -/
def Decided (c : Core) (commit : Bool) : Prop :=
  if commit then
    c.state.pending.transaction.state = .committing ∧
      hashRead c.trace = some c.state.pending.candidateHash
  else
    c.state.pending.transaction.state = .pending ∨
      ∃ h, hashRead c.trace = some h ∧ h ≠ c.state.pending.candidateHash

def ManagedHostname (S : Site) (c : Configuration) : Prop :=
  ∀ b, S.profile.bootPreferences = some b → c.system.hostname = b.managedHostname

/-- What bootstrap has done before it clears the reset intent. -/
structure ResetDone (S : Site) (t : List Entry) : Prop where
  status : S.profile.storageStatusFile ≠ [] → ∃ f, .status f true ∈ sinceBootstrap t
  removed : ∀ p ∈ S.profile.resetPaths, .removed p ∈ sinceBootstrap t
  network : .network S.profile.defaults.system.network true ∈ sinceBootstrap t
  ssh : .ssh S.profile.defaults.system.sshEnabled true ∈ sinceBootstrap t
  clock : .clock S.profile.defaults.time true ∈ sinceBootstrap t

inductive Change (S : Site) (c : Core) : State → List Entry → Prop where
  | begin (p : NetworkProposal) (id actor requestId : Bytes) (t : ℕ) :
      c.failed = false → during Op.serves c.trace = true → Idle c.state →
      p.previousSettingsHash ≠ p.candidateSettingsHash →
      hashRead c.trace = some p.previousSettingsHash → ManagedHostname S c.state.configuration →
      lastReading c.trace = some t →
      Change S c { c.state with pending := Backend.proposed c.state p id actor requestId t }
        [.begun id c.state.configuration c.state.initialized]
  | prepare (t : ℕ) :
      c.failed = false → during Op.serves c.trace = true →
      c.state.pending.transaction.state = .pending →
      hashRead c.trace = some c.state.pending.previousHash →
      .reading t ∈ sinceCall c.trace →
      (∃ u, .reading u ∈ sinceCall c.trace ∧ u < c.state.pending.deadline) →
      Change S c (c.state.prepare (add64 t 30000)) []
  | settle (commit : Bool) :
      c.state.isOpen = true → Decided c commit → running c.trace = some (c.state.next commit) →
      lastApplied c.trace = some (c.state.next commit) →
      Change S c (c.state.settle commit)
        [.settled commit c.state.pending.transaction.id (c.state.settle commit).configuration]
  | job (job : Job) (actor requestId : Bytes) :
      c.failed = false → during Op.requestsJob c.trace = true → Idle c.state →
      job.state = .accepted →
      Change S c
        { c.state with
          job := job, resetIntent := c.state.resetIntent || job.action == .deviceReset
          jobActor := actor, jobRequestId := requestId }
        [.created job]
  | powerFailed :
      c.state.job.state = .dispatched → Change S c (c.state.setJob .failed) []
  | interrupt :
      during Op.starts c.trace = true → c.state.isOpen = false → c.state.resetIntent = false → c.state.job.state = .accepted →
      Change S c (c.state.setJob .interrupted) [.found c.state.job]
  | configure (config : Configuration) :
      c.failed = false → during Op.serves c.trace = true → Idle c.state →
      (c.state.initialized = true → config.system.network = c.state.network) →
      Change S c (c.state.configure config) []
  | keep : Change S c c.state []
  | adopt :
      c.state.initialized = false → c.state.resetIntent = false →
      booting c.trace = true ∨ running c.trace = some c.state.network →
      Change S c { c.state with initialized := true } []
  | completeReset :
      c.state.resetIntent = true → booting c.trace = true →
      c.state.network = S.profile.defaults.system.network → ResetDone S c.trace →
      during Op.boots c.trace = true →
      Change S c c.state.completeReset []

/-- What a journal write can come to: refused by the latch, cut off before it, done, or
failed with the old or the new text left. -/
inductive Saved (c : Core) (s : State) (marks : List Entry) : Core → Prop where
  | refused : c.failed = true → Saved c s marks { c with state := s, trace := marks ++ c.trace }
  | cut : c.failed = false →
      Saved c s marks { c with state := s, alive := false, trace := marks ++ c.trace }
  | ok : c.failed = false →
      Saved c s marks { c with
        state := s, journal := some s, trace := .journal c.journal s :: (marks ++ c.trace) }
  | lost (left : Bool) : c.failed = false →
      Saved c s marks { c with
        state := s, failed := true, journal := if left then some s else c.journal
        trace := .journalFailed c.journal s left :: (marks ++ c.trace) }

theorem Saved.state {c c' : Core} {s : State} {marks : List Entry} (hs : Saved c s marks c') : c'.state = s := by
  cases hs <;> rfl

/-- The journal holds what was saved or what it held before. -/
theorem Saved.holds {c c' : Core} {s d : State} {marks : List Entry} (hs : Saved c s marks c')
    (hd : c'.journal = some d) : d = s ∨ c.journal = some d := by
  cases hs with
  | refused _ => exact .inr hd
  | cut _ => exact .inr hd
  | ok _ => exact .inl (Option.some.inj hd).symm
  | lost left _ =>
    cases left with
    | true => exact .inl (Option.some.inj hd).symm
    | false => exact .inr hd

/-! ### Changes that are not journaled at once -/

inductive Loose (S : Site) (c : Core) : State → List Entry → Prop where
  | relabel (actor requestId : Bytes) : Loose S c (c.state.relabel actor requestId) []
  | configuration (config : Configuration) :
      c.state.initialized = false → c.state.resetIntent = false →
      Loose S c { c.state with configuration := config } []
  | wipe :
      c.state.resetIntent = true → booting c.trace = true →
      Loose S c (c.state.wipe S.profile.defaults) [.cleared]
  | hostname (b : BootPreferences) :
      booting c.trace = true → S.profile.bootPreferences = some b →
      Loose S c (c.state.setHostname b.managedHostname) []
  | revert (config : Configuration) :
      c.state.isOpen = false → c.failed = true ∨ config = c.state.configuration →
      Loose S c { c.state with configuration := config } []

/-! ### Moves -/

/-- When the platform may be asked to change the network. -/
inductive NetworkGuard (c : Core) (n : Network) : Prop where
  | proposed : c.failed = false → c.journal = some c.state → c.state.isOpen = true →
      n = c.state.pending.transaction.network → NetworkGuard c n
  | settling (commit : Bool) : c.state.isOpen = true → Decided c commit →
      (c.failed = true → careless c.trace = true) → n = c.state.next commit → NetworkGuard c n
  | booting : booting c.trace = true → NetworkGuard c n

/-- What holds when bootstrap returns. -/
structure Booted (c : Core) : Prop where
  alive : c.alive = true
  reset : c.state.resetIntent = false
  latch : c.failed = true → careless c.trace = true
  network : c.state.initialized = true → running c.trace = some c.state.network

/-- What holds when start returns. -/
structure Resumed (c : Core) : Prop where
  alive : c.alive = true
  latch : c.failed = true → careless c.trace = true
  initialized : c.state.resetIntent = false → c.state.initialized = true
  closed : c.state.resetIntent = false → c.state.isOpen = false

def Entry.inert : Entry → Bool
  | .reading _ | .preferences _ _ | .ssh _ _ | .clock _ _ | .hostname _ _ | .status _ _ => true
  | _ => false

inductive Move (S : Site) (c : Core) : Core → Prop where
  | note (e : Entry) : e.inert = true → Move S c { c with trace := e :: c.trace }
  | write (v : Bytes) :
      Move S c { c with settings := some v, trace := .written v c.journal :: c.trace }
  | hash (h : Bytes) : digest S c.settings = .ok h →
      Move S c { c with trace := .hash h :: c.trace }
  | discovered (config : Configuration) :
      c.alive = true → c.state.initialized = false →
      Move S c { c with trace := .discovered config :: c.trace }
  | remove (p : Bytes) : c.state.resetIntent = true → booting c.trace = true →
      hashRead c.trace = none → (∃ r ∈ S.profile.resetPaths, inside r p = true) →
      Move S c { c with
        settings := if inside p S.profile.activeSettings then none else c.settings
        journal := if inside p S.journalPath then none else c.journal
        trace := .removed p :: c.trace }
  | network (n : Network) (bootstrap ok : Bool) : c.alive = true → NetworkGuard c n →
      Move S c { c with
        trace := (if ok then .network n bootstrap else .networkFailed n bootstrap) :: c.trace }
  | power (action : PowerAction) : c.alive = true → c.failed = false → c.journal = some c.state →
      c.state.job.state = .dispatched → handoff c.trace = true →
      Move S c { c with trace := .power action c.state.job (c.journal.map (·.job)) :: c.trace }
  | arm (deadline : ℕ) : c.alive = true →
      (c.failed = false ∧ createdInCall c.trace = true ∧ during Op.requestsJob c.trace = true) ∨
        (c.state.resetIntent = true ∧ during Op.starts c.trace = true) →
      Move S c { c with jobDeadline := deadline }
  | dispatch {c' : Core} : c.alive = true → c.jobDeadline ≠ 0 →
      Saved { c with jobDeadline := 0 } (c.state.setJob .dispatched) [.dispatching] c' → Move S c c'
  | save {s : State} {marks : List Entry} {c' : Core} : c.alive = true → Change S c s marks →
      Saved c s marks c' → Move S c c'
  | loose {s : State} {marks : List Entry} : c.alive = true → Loose S c s marks →
      Move S c { c with state := s, trace := marks ++ c.trace }
  | call (op : Op) : Move S c { c with trace := .call op c.failed :: c.trace }
  | returned (op : Op) : (op = .bootstrap → Booted c) → (op = .start → Resumed c) →
      Move S c { c with trace := .returned op :: c.trace }
  | raised (op : Op) : (createdInCall c.trace = true → c.failed = true) →
      Move S c { c with trace := .raised op :: c.trace }
  | cut : Move S c { c with alive := false, trace := .cut :: c.trace }
  | stop : Move S c { c with alive := false }
  | construct :
      Move S c { c with
        alive := true, state := Backend.loaded S.profile c.journal, failed := false
        jobDeadline := 0, trace := .constructed :: c.trace }

abbrev Path (S : Site) (c c' : Core) : Prop := ReflTransGen (Move S) c c'

/-- A move in the body of a call. -/
def Inner (S : Site) (c c' : Core) : Prop := Move S c c' ∧ callOf c'.trace = callOf c.trace

theorem inner_call {S : Site} {c c' : Core} (h : ReflTransGen (Inner S) c c') :
    callOf c'.trace = callOf c.trace := by
  induction h with
  | refl => rfl
  | tail _ hm ih => exact hm.2.trans ih

theorem path_of_inner {S : Site} {c c' : Core} (h : ReflTransGen (Inner S) c c') : Path S c c' := by
  induction h with
  | refl => exact ReflTransGen.refl
  | tail _ hm ih => exact ih.tail hm.1

/-- The history only grows. -/
theorem Saved.grows {c c' : Core} {s : State} {marks : List Entry} (h : Saved c s marks c') :
    ∃ es, c'.trace = es ++ (marks ++ c.trace) := by
  cases h with
  | refused => exact ⟨[], rfl⟩
  | cut => exact ⟨[], rfl⟩
  | ok => exact ⟨[_], rfl⟩
  | lost left => exact ⟨[_], rfl⟩

theorem Move.grows {S : Site} {c c' : Core} (h : Move S c c') : ∃ es, c'.trace = es ++ c.trace := by
  cases h with
  | dispatch _ _ hs =>
    obtain ⟨es, h⟩ := hs.grows
    exact ⟨es ++ [.dispatching], by simpa using h⟩
  | @save s marks c' _ _ hs =>
    obtain ⟨es, h⟩ := hs.grows
    exact ⟨es ++ marks, by simpa using h⟩
  | @loose s marks _ _ => exact ⟨marks, rfl⟩
  | arm => exact ⟨[], rfl⟩
  | stop => exact ⟨[], rfl⟩
  | _ => exact ⟨[_], rfl⟩

theorem grows_path {S : Site} {c c' : Core} (h : Path S c c') :
    ∃ es, c'.trace = es ++ c.trace := by
  induction h with
  | refl => exact ⟨[], rfl⟩
  | tail _ hm ih =>
    obtain ⟨es, hes⟩ := ih
    obtain ⟨fs, hfs⟩ := hm.grows
    exact ⟨fs ++ es, by rw [hfs, hes, List.append_assoc]⟩

end Monutchee.System
