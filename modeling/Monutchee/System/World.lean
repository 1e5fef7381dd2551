import Monutchee.Lib.Act
import Monutchee.System.Validation

/-!
# The world a Backend acts on

The manager's process holds the members of the class `Backend` (backend.hpp:126-134);
outside it are the journal, the active settings file, the storage status file and the
paths a reset deletes. Everything the process asks of the outside is an effect, and the
environment answers each effect by a `Choice`: it may cut the process off just before
the effect, make the effect raise, let a failing journal write leave the old or the new
text, pick clock readings, random ids and discovered values, and let the settings
authority write its file once the effect is over. A list of choices is one behaviour of
the environment; statements quantify over all of them.

The trace is the history of the run, newest entry first. No definition of the program
reads it: it is what the specifications speak about.
-/

namespace Monutchee.System
open Lib

/-- What a run is given: the product profile and SHA-256 in hexadecimal, which OpenSSL
computes. -/
structure Site where
  profile : Profile
  sha256 : Bytes → Bytes

/-- The calls of a Backend (backend.hpp:96-110) that can change anything. -/
inductive Op where
  | bootstrap
  | start
  | tick
  | apply (config : Configuration)
  | beginNetwork (proposal : NetworkProposal) (actor requestId : Bytes)
  | networkTransaction
  | prepareNetworkCommit (id : Bytes)
  | finishNetwork (id : Bytes) (commit : Bool) (actor requestId : Bytes)
  | power (action : PowerAction) (actor requestId : Bytes)
  | resetDevice (confirmed : Bool) (actor requestId : Bytes)
  deriving DecidableEq, Repr

/-- One event of the history. `call` also records the latch `storage_failed_`, `written` and
`power` the journal, or its job, at that moment; `begun`, `settled`, `cleared`, `created`, `dispatching` and `found` mark
assignments to the in-memory transaction and job. -/
inductive Entry where
  | constructed
  | call (op : Op) (latched : Bool)
  | returned (op : Op)
  | raised (op : Op)
  | cut
  | written (content : Bytes) (durable : Option State)
  | reading (time : ℕ)
  | hash (value : Bytes)
  | status (factoryReset resetPrepared : Bool)
  | discovered (config : Configuration)
  | network (config : Network) (bootstrap : Bool)
  | networkFailed (config : Network) (bootstrap : Bool)
  | preferences (config : Configuration) (ok : Bool)
  | ssh (enabled : Bool) (ok : Bool)
  | clock (time : TimePreferences) (ok : Bool)
  | hostname (name : Bytes) (ok : Bool)
  | power (action : PowerAction) (job : Job) (durable : Option Job)
  | removed (path : Bytes)
  | journal (old : Option State) (new : State)
  | journalFailed (old : Option State) (new : State) (left : Bool)
  | begun (id : Bytes) (config : Configuration) (initialized : Bool)
  | settled (commit : Bool) (id : Bytes) (config : Configuration)
  | cleared
  | created (job : Job)
  | dispatching
  | found (job : Job)
  deriving DecidableEq, Repr

/-- The answer of the environment to one effect. -/
structure Choice where
  crash : Bool := false
  fails : Bool := false
  leaves : Bool := false
  error : Error := {}
  time : ℕ := 0
  id : Bytes := []
  config : Configuration := {}
  links : List NetworkStatus := []
  gone : List Bytes := []
  writes : List Bytes := []
  deriving DecidableEq, Repr

/-- `status.json` of mnc-storage as storageStatus (storage.cpp:256-262) can find it. -/
inductive StatusFile where
  | missing
  | invalid
  | boot (factoryReset resetPrepared : Bool)
  deriving DecidableEq, Repr

/-- The part of the world that the protocols are about. -/
structure Core where
  alive : Bool := false
  state : State := {}
  failed : Bool := false
  jobDeadline : ℕ := 0
  journal : Option State := none
  settings : Option Bytes := none
  trace : List Entry := []
  deriving DecidableEq, Repr

structure World extends Core where
  nextObservation : ℕ := 0
  carriers : List (Bytes × Bool) := []
  tree : List Bytes := []
  status : StatusFile := .missing
  events : List UserEvent := []
  script : List Choice := []
  deriving DecidableEq, Repr

abbrev Prog := Act World Error

/-! ### Paths -/

/-- The parts of a path between its separators. -/
def splitPath : Bytes → Bytes → List Bytes
  | name, [] => [name]
  | name, b :: bs => if b = 47 then name :: splitPath [] bs else splitPath (name ++ [b]) bs

/-- The names of a path, read lexically: empty names and "." do not count, and ".." takes
back the name before it; without one it stays in a relative path. -/
def resolve (absolute : Bool) : List Bytes → List Bytes → List Bytes
  | done, [] => done
  | done, name :: rest =>
    if name = [] ∨ name = ascii "." then resolve absolute done rest
    else if name = ascii ".." then
      if done = [] ∨ done.getLast? = some (ascii "..") then
        resolve absolute (if absolute then done else done ++ [name]) rest
      else resolve absolute done.dropLast rest
    else resolve absolute (done ++ [name]) rest

def components (p : Bytes) : List Bytes := resolve true [] (splitPath [] p)

def inside (p q : Bytes) : Bool := (components p).isPrefixOf (components q)

def Site.journalPath (S : Site) : Bytes := S.profile.stateDirectory ++ ascii "/state.json"

/-! ### Effects -/

namespace World

def log (e : Entry) (w : World) : World := { w with trace := e :: w.trace }

def draw (w : World) : Choice × World :=
  match w.script with
  | [] => ({}, w)
  | c :: cs => (c, { w with script := cs })

/-- The settings authority replaces its file. -/
def write (w : World) (v : Bytes) : World :=
  { w with settings := some v, trace := .written v w.journal :: w.trace }

def authority (vs : List Bytes) (w : World) : World := vs.foldl write w

/-- A path disappears with everything below it. -/
def remove (S : Site) (w : World) (p : Bytes) : World :=
  { w with
    tree := w.tree.filter fun q => !inside p q
    settings := if inside p S.profile.activeSettings then none else w.settings
    journal := if inside p S.journalPath then none else w.journal
    trace := .removed p :: w.trace }

end World

/-- One effect: the environment draws its answer, may cut the process off, and otherwise
the operation happens and the settings authority may then write. -/
def effect {α : Type} (op : Choice → World → Outcome Error α × World) : Prog α := fun w =>
  let (c, w₁) := w.draw
  if c.crash then (.crash, { w₁ with alive := false })
  else
    let (o, w₂) := op c w₁
    (o, w₂.authority c.writes)

/-- A platform call that the history records and that may raise. -/
def platformCall (entry : Bool → Entry) : Prog Unit := effect fun c w =>
  if c.fails then (.raise c.error, w.log (entry false)) else (.ret (), w.log (entry true))

def platformNetwork (n : Network) (bootstrap : Bool) : Prog Unit :=
  platformCall fun ok => if ok then .network n bootstrap else .networkFailed n bootstrap

def platformPreferences (c : Configuration) : Prog Unit := platformCall (.preferences c)

def platformSshBootPolicy (enabled : Bool) : Prog Unit := platformCall (.ssh enabled)

def platformClockBootPolicy (t : TimePreferences) : Prog Unit := platformCall (.clock t)

def platformBootHostname (name : Bytes) : Prog Unit := platformCall (.hostname name)

def platformValidateConfiguration (_ : Configuration) : Prog Unit := effect fun c w =>
  if c.fails then (.raise c.error, w) else (.ret (), w)

def platformDiscover : Prog Configuration := effect fun c w =>
  if c.fails then (.raise c.error, w) else (.ret c.config, w.log (.discovered c.config))

def platformNetworkLinks : Prog (List NetworkStatus) := effect fun c w =>
  if c.fails then (.raise c.error, w) else (.ret c.links, w)

def platformPower (action : PowerAction) : Prog Unit := effect fun c w =>
  let w₁ := w.log (.power action w.state.job (w.journal.map (·.job)))
  if c.fails then (.raise c.error, w₁) else (.ret (), w₁)

/-- `clock_()`: 64 bits, and it does not raise. -/
def readClock : Prog ℕ := effect fun c w =>
  (.ret (c.time % 2^64), w.log (.reading (c.time % 2^64)))

def randomId : Prog Bytes := effect fun c w =>
  if c.fails then (.raise ⟨.applyFailed, ascii "random ID"⟩, w) else (.ret c.id, w)

/-- readFile's limit and SHA-256 (storage.cpp:30-45, 76-88); an absent file hashes to "". -/
def digest (S : Site) : Option Bytes → Except Error Bytes
  | none => .ok []
  | some v =>
    if 1048576 < v.length then .error ⟨.invalidArgument, ascii "file too large"⟩
    else .ok (S.sha256 v)

def fileHash (S : Site) : Prog Bytes := effect fun c w =>
  if c.fails then (.raise c.error, w)
  else
    match digest S w.settings with
    | .error e => (.raise e, w)
    | .ok h => (.ret h, w.log (.hash h))

/-- atomicWrite of the journal (storage.cpp:46-70, 214): a failure leaves the old or the
new text. -/
def writeJournal : Prog Unit := effect fun c w =>
  if c.fails then
    (.raise c.error, { w with
      journal := if c.leaves then some w.state else w.journal
      trace := .journalFailed w.journal w.state c.leaves :: w.trace })
  else
    (.ret (), { w with journal := some w.state, trace := .journal w.journal w.state :: w.trace })

/-- durableRemove (storage.cpp:71-75); a failure may have removed some paths below. -/
def durableRemove (S : Site) (p : Bytes) : Prog Unit := effect fun c w =>
  if c.fails then (.raise c.error, (c.gone.filter (inside p)).foldl (World.remove S) w)
  else (.ret (), World.remove S w p)

/-- storageStatus (storage.cpp:256-262). -/
def storageStatus (path : Bytes) : Prog (Bool × Bool) := effect fun c w =>
  if c.fails then (.raise c.error, w)
  else
    match w.status with
    | .missing => (.raise ⟨.unavailable, ascii "cannot read " ++ path⟩, w)
    | .invalid => (.raise ⟨.unavailable, ascii "invalid storage boot status"⟩, w)
    | .boot factoryReset resetPrepared =>
      (.ret (factoryReset, resetPrepared), w.log (.status factoryReset resetPrepared))

end Monutchee.System
