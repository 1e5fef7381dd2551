import Monutchee.System.Run

/-!
# Early boot storage (mnc-storage prepare)

`prepare` runs before systemd on every boot: it mounts the three roles, and when the journal
of the system manager asks for a reset it formats the data partition, deletes four paths of
the state partition and records that in `status.json`, which lives on a tmpfs. Commands and
files of the machine are effects that the environment answers, as for the manager; any of
them may raise, and the boot may be cut off before any of them.

Of the state partition only the journal is followed from boot to boot. What else the mounted
file systems hold is the environment's choice at each mount.
-/

namespace Monutchee.Storage
open Lib Lib.Act
open Monutchee.System (Bytes ascii State Site World inside StatusFile Entry)

inductive Role where
  | factory | state | data
  deriving DecidableEq, Repr

/-- ROLES (mnc-storage:20). -/
def roles : List Role := [.factory, .state, .data]

def Role.text : Role → Bytes
  | .factory => ascii "factory"
  | .state => ascii "state"
  | .data => ascii "data"

/-- policy.json, as far as prepare decides by it; `validate` (mnc-storage:70-94) makes factory
the only read-only role. -/
structure Policy where
  disk : Bytes := []
  label : Role → Bytes
  settings : Bytes := []
  resetJournal : Bytes := []

def Policy.journalPath (p : Policy) : Bytes := ascii "/state/" ++ p.resetJournal

/-- The four paths that a reset deletes (mnc-storage:316-317). -/
def Policy.resetPaths (p : Policy) : List Bytes :=
  [ascii "/state/" ++ p.settings, ascii "/state/os/var-lib/monutchee", ascii "/state/os/ssh",
    ascii "/state/os/root-ssh"]

/-- One node of lsblk's tree, which descendants() flattens. -/
structure Node where
  name : Bytes := []
  type : Bytes := []
  fstype : Bytes := []
  label : Bytes := []
  pkname : Bytes := []
  mountpoints : List Bytes := []
  deriving DecidableEq, Repr

/-- What the environment says to one effect. -/
structure Answer where
  crash : Bool := false
  fails : Bool := false
  error : Bytes := []
  maintenance : Bool := false
  nodes : List Node := []
  holders : List Bytes := []
  code : ℕ := 0
  gone : List Bytes := []
  settings : Option Bytes := none
  tree : List Bytes := []
  deriving DecidableEq, Repr

/-- The device: the manager with the files it sees, the journal on the state partition while
that is not mounted, `status.json` and what this boot has come to. -/
structure Device where
  world : World := {}
  partition : Option State := none
  status : StatusFile := .missing
  persistent : Bool := false
  ready : Bool := false
  formatted : Bool := false
  erased : List Bytes := []
  answers : List Answer := []
  deriving DecidableEq, Repr

/-- The journal that a power cut would leave. -/
def Device.durable (d : Device) : Option State := if d.persistent then d.world.journal else d.partition

def Device.intent (d : Device) : Bool := d.durable.any (·.resetIntent)

abbrev Prog := Act Device Bytes

def Device.draw (d : Device) : Answer × Device :=
  let (a, rest) := nextAnswer {} d.answers
  (a, { d with answers := rest })

def effect {α : Type} (op : Answer → Device → Outcome Bytes α × Device) : Prog α := fun d =>
  let (a, d₁) := d.draw
  if a.crash then (.crash, d₁) else op a d₁

/-- A command or file operation that touches nothing that is followed here. -/
def ask {α : Type} (f : Answer → α) : Prog α := effect fun a d =>
  if a.fails then (.raise a.error, d) else (.ret (f a), d)

def command : Prog Unit := ask fun _ => ()

/-! ### Finding the partitions (mnc-storage:97-127, 266-272) -/

def inventory : Prog (List Node) := ask (·.nodes)

def resolveRole (p : Policy) (nodes : List Node) (role : Role) : Except Bytes (List (Role × Bytes)) :=
  match nodes.filter (·.label == p.label role) with
  | [] => .ok []
  | [n] =>
    if n.type != ascii "part" || n.pkname != p.disk then
      .error (ascii "role is on unexpected disk: " ++ role.text)
    else if n.fstype != ascii "ext4" then .error (ascii "unexpected filesystem: " ++ role.text)
    else .ok [(role, n.name)]
  | _ => .error (ascii "ambiguous label: " ++ p.label role)

def resolve (p : Policy) (nodes : List Node) : Except Bytes (List (Role × Bytes)) := do
  let found ← roles.mapM (resolveRole p nodes)
  return found.flatten

/-- Removable media get ten tries to enumerate. -/
def discover (p : Policy) : ℕ → List (Role × Bytes) → Prog (List (Role × Bytes))
  | 0, devices => pure devices
  | tries + 1, _ => do
    let nodes ← inventory
    let devices ← lift (resolve p nodes)
    if devices.length == roles.length then pure devices
    else
      command
      discover p tries devices

/-! ### Mounting one role (mnc-storage:273-313) -/

structure RoleStatus where
  persistent : Bool := false
  device : Bytes := []
  error : Bytes := []
  deriving DecidableEq, Repr

/-- journal.exists() and its reset_intent. -/
def readIntent : Prog Bool := effect fun a d =>
  if a.fails then (.raise a.error, d) else (.ret (d.world.journal.any (·.resetIntent)), d)

def formatData : Prog Unit := effect fun a d =>
  if a.fails then (.raise a.error, d) else (.ret (), { d with formatted := true })

def filesystemCheck : Prog Unit := do
  let code ← ask (·.code)
  require (code ≤ 1) (ascii "filesystem needs manual repair")

/-- The state role makes the journal of the partition, or of nothing, the manager's. -/
def mount (role : Role) (persistent : Bool) : Prog Unit := effect fun a d =>
  if a.fails then (.raise a.error, d)
  else if role = .state then
    (.ret (), { d with
      persistent := persistent
      world := { d.world with
        journal := if persistent then d.partition else none
        settings := a.settings, tree := a.tree } })
  else (.ret (), d)

/-- Refuse any user of the data partition, then format it (mnc-storage:283-291). -/
def eraseData (devices : List (Role × Bytes)) (statePersistent : Bool) : Prog Unit :=
  match devices.lookup .data with
  | some device => do
    require statePersistent (ascii "factory reset needs persistent state and data")
    let nodes ← inventory
    let users := nodes.filter (·.name == device)
    require (users.length == 1 && users.all (·.mountpoints.all (·.isEmpty)))
      (ascii "reset data is mounted")
    let holders ← ask (·.holders)
    require holders.isEmpty (ascii "reset data has block holders")
    formatData
  | none => raise (ascii "factory reset needs persistent state and data")

/-- What only the data role does first (mnc-storage:280-291). -/
def resetData (devices : List (Role × Bytes)) (statePersistent : Bool) : Prog Bool := do
  let resetting ← readIntent
  if resetting then do
    eraseData devices statePersistent
    pure true
  else pure false

def checkRole (role : Role) : Prog Unit := if role = .factory then pure () else filesystemCheck

def mountPartition (role : Role) (device : Bytes) : Prog RoleStatus := do
  checkRole role
  mount role true
  pure { persistent := true, device := device }

/-- What goes wrong with the partition is recorded and does not stop the boot. -/
def tryMount (maintenance : Bool) (devices : List (Role × Bytes)) (role : Role) : Prog RoleStatus :=
  match devices.lookup role with
  | some device => attempt (mountPartition role device) fun error => pure { error := error }
  | none => pure
      { error := if maintenance then ascii "maintenance_boot" else ascii "partition_missing" }

/-- A mounted data role gets the directory of the log; a role that is not mounted a tmpfs. -/
def settleRole (role : Role) (status : RoleStatus) : Prog Unit :=
  if status.persistent then
    if role = .data then command else pure ()
  else mount role false

/-- One round of the loop over the roles. -/
def mountRole (maintenance : Bool) (devices : List (Role × Bytes)) (role : Role) :
    Prog RoleStatus := do
  let status ← tryMount maintenance devices role
  settleRole role status
  pure status

def enterRole : Prog Unit := do
  command
  command

/-! ### The rest of prepare (mnc-storage:259-265, 314-352) -/

def Device.remove (S : Site) (p : Policy) (d : Device) (q : Bytes) : Device :=
  { d with world := { d.world with
      tree := d.world.tree.filter fun r => !inside q r
      settings := if inside q S.profile.activeSettings then none else d.world.settings
      journal := if inside q p.journalPath then none else d.world.journal } }

/-- One of the four paths: it may not be a symbolic link; rmtree may fail half way. -/
def removeTree (S : Site) (p : Policy) (q : Bytes) : Prog Unit := effect fun a d =>
  if a.fails then (.raise a.error, (a.gone.filter (inside q)).foldl (Device.remove S p) d)
  else (.ret (), { Device.remove S p d q with erased := d.erased ++ [q] })

def removeSettings (S : Site) (p : Policy) (q : Bytes) : Prog Unit := do
  command
  removeTree S p q
  command

def writeStatus (factoryReset resetPrepared : Bool) : Prog Unit := effect fun a d =>
  if a.fails then (.raise a.error, { d with status := .invalid })
  else (.ret (), { d with status := .boot factoryReset resetPrepared })

def findDevices (p : Policy) (maintenance : Bool) : Prog (List (Role × Bytes)) :=
  if maintenance then pure [] else discover p 10 []

def prepareReset (S : Site) (p : Policy) (resetting dataPersistent : Bool) : Prog Unit :=
  if resetting then do
    require dataPersistent (ascii "cannot complete reset without data")
    each (removeSettings S p) p.resetPaths
  else pure ()

def prepare (S : Site) (p : Policy) : Prog Unit := do
  command
  let maintenance ← ask (·.maintenance)
  let devices ← findDevices p maintenance
  enterRole
  let _ ← mountRole maintenance devices .factory
  enterRole
  let state ← mountRole maintenance devices .state
  enterRole
  let resetting ← resetData devices state.persistent
  let data ← mountRole maintenance devices .data
  prepareReset S p resetting data.persistent
  -- The machine identity, the bind mounts and the runtime files (mnc-storage:323-347).
  command
  writeStatus (state.persistent && data.persistent) resetting
  command

/-! ### Boots and runs -/

/-- Power comes back: nothing is mounted, the tmpfs under /run is empty, no process runs. -/
def powered (answers : List Answer) (d : Device) : Device :=
  { world := { d.world with
      alive := false, journal := none, trace := .cut :: d.world.trace }
    partition := d.durable
    answers := answers }

/-- mnc-preboot starts systemd only when prepare succeeded. -/
def boot (S : Site) (p : Policy) (answers : List Answer) (d : Device) : Device :=
  match prepare S p (powered answers d) with
  | (.ret _, d') => { d' with ready := true }
  | (_, d') => d'

inductive Event where
  | boot (answers : List Answer)
  | restart (script : List System.Choice)
  | call (op : System.Op) (script : List System.Choice)
  | crash
  | write (content : Bytes)
  deriving DecidableEq, Repr

/-- What an event is to the manager. -/
def Event.manager : Event → Option System.Event
  | .boot _ => none
  | .restart script => some (.restart script)
  | .call op script => some (.call op script)
  | .crash => some .crash
  | .write content => some (.write content)

def step (S : Site) (p : Policy) (d : Device) : Event → Device
  | .boot answers => boot S p answers d
  | e =>
    match e.manager with
    | some e =>
      if d.ready then { d with world := System.step S { d.world with status := d.status } e } else d
    | none => d

def run (S : Site) (p : Policy) (d : Device) (es : List Event) : Device := es.foldl (step S p) d

end Monutchee.Storage
