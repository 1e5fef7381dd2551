import Monutchee.Lib.Act
import Monutchee.Lib.Json

/-!
# The JTAG loader (load-jtag-image.tcl:88-481, 572-648)

The loader drives XSDB over a hw_server that may serve many boards. A run first binds a cable and
a device; from then on it lists the targets again before each operation and selects the one that
sits on the bound hardware. Every listing, selection and command that changes the hardware is
recorded, the command with the target it is executed on. The environment answers each query with
any listing, and may let any command fail.
-/

namespace Monutchee.Jtag
open Monutchee.Lib Monutchee.Lib.Act

/-- The dictionary of one target; a key may be missing. -/
structure Target where
  name : Option Text := none
  targetId : Option Text := none
  cableSerial : Option Text := none
  cableCtx : Option Text := none
  deviceIndex : Option Text := none
  deriving DecidableEq

/-- What `targets -target-properties` returns. XSDB numbers the targets. -/
structure Listing where
  targets : List Target := []
  numbered : ∀ t ∈ targets, t.targetId ≠ some [] := by simp
  distinct : (targets.filterMap Target.targetId).Nodup := by simp

/-- The current target, with the listing it was chosen from and the pattern of that listing. -/
structure Chosen where
  target : Target
  pattern : Text
  listing : Listing

inductive Scope where
  | device | cable
  deriving DecidableEq

inductive Reset where
  | srst | por | system | cores
  deriving DecidableEq

inductive Image where
  | pmufw | fsbl | tfa | uBoot | systemDtb | environment
  deriving DecidableEq

/-- The commands that change the hardware. -/
inductive Command where
  | rst (kind : Reset)
  | mwr (address value : ℕ)
  | maskWrite (address mask value : ℕ)
  | dow (image : Image)
  | dowData (image : Image) (address : ℕ)
  | con (block : Bool)
  | stop
  | bpadd
  deriving DecidableEq

inductive Event where
  | connect
  | disconnect
  | scan (result : Option Listing)
  | query (pattern : Text) (result : Option Listing)
  | select (id : Text) (ok : Bool)
  | command (c : Command) (current : Option Chosen)

inductive Error where
  | xsdb
  | missingKey
  | notOnePsu (found : ℕ)
  | noDeviceIndex
  | noCable
  | notOneTarget (pattern : Text) (scope : Scope) (found : ℕ) (observed : List Target) (query : Option Error)
  | downloadFailed (image : Image) (last : Option Error)
  | notOneFsblTarget (pattern : Text) (found : ℕ)
  | unboundFsblStatus
  | fsblStatus
  | fsblAddress
  | fsblPc
  | boardReset (e : Error)
  | bootMode (e : Error)

/-- What XSDB says to one request; a number is missing where the text is none. -/
structure Answer where
  fails : Bool := false
  listing : Listing := {}
  number : Option ℤ := none

structure Machine where
  answers : List Answer := []
  trace : List Event := []
  /-- The last listing, with the pattern it was asked for. -/
  listing : Option (Text × Listing) := none
  current : Option Chosen := none

abbrev Prog := Act Machine Error

/-- The interpreter's table of lower case letters. -/
structure Tcl where
  lower : ℕ → ℕ

/-- `string match -nocase`, for patterns of letters and asterisks. -/
def Tcl.glob (tcl : Tcl) : Text → Text → Bool
  | [], s => s.isEmpty
  | c :: pattern, s =>
    if c = 42 then s.tails.any (tcl.glob pattern)
    else match s with
      | [] => false
      | x :: rest => tcl.lower c == tcl.lower x && tcl.glob pattern rest

def Tcl.named (tcl : Tcl) (pattern : Text) (t : Target) : Bool := t.name.any (tcl.glob pattern)

def PSU : Text := text "*PSU*"
def A53 : Text := text "*A53*#0"
def PMU : Text := text "*MicroBlaze PMU*"

/-! ### Requests -/

def Machine.draw (w : Machine) : Answer × Machine :=
  let (a, rest) := nextAnswer {} w.answers
  (a, { w with answers := rest })

/-- One request: what it does to the machine, which may depend on its success, and its value. -/
def request {α : Type} (effect : Answer → Machine → Machine) (value : Answer → α) : Prog α := fun w =>
  let (a, w') := w.draw
  if a.fails then (.raise .xsdb, effect a w') else (.ret (value a), effect a w')

def Machine.record (w : Machine) (e : Event) : Machine := { w with trace := w.trace ++ [e] }

/-- Without a connection there is neither a listing nor a current target. -/
def Machine.forget (w : Machine) : Machine := { w with listing := none, current := none }

def connect : Prog Unit := request (fun _ w => w.forget.record .connect) fun _ => ()
def disconnect : Prog Unit := request (fun _ w => w.forget.record .disconnect) fun _ => ()

def Answer.listed (a : Answer) : Option Listing := if a.fails then none else some a.listing

/-- A listing gives the ids their meaning. -/
def listTargets (pattern : Text) (event : Option Listing → Event) : Prog Listing :=
  request (fun a w =>
    { w with listing := if a.fails then w.listing else some (pattern, a.listing) }.record (event a.listed)) (·.listing)

def Listing.byId (l : Listing) (id : Text) : Option Target := l.targets.find? fun t => t.targetId == some id

def Machine.denotes (w : Machine) (id : Text) : Option Chosen :=
  w.listing.bind fun l => (l.2.byId id).map fun t => ⟨t, l.1, l.2⟩

/-- `targets $id` -/
def selectId (id : Text) : Prog Unit :=
  request (fun a w =>
    { w with current := if a.fails then w.current else w.denotes id }.record (.select id (!a.fails))) fun _ => ()

def command (c : Command) : Prog Unit := request (fun _ w => w.record (.command c w.current)) fun _ => ()

/-- A request that changes nothing. -/
def read : Prog (Option ℤ) := request (fun _ w => w) (·.number)

def item (value : Option Text) : Prog Text :=
  match value with
  | some v => pure v
  | none => Act.raise .missingKey

def caught {α : Type} (m : Prog α) : Prog (Except Error α) :=
  Act.attempt (do
    let a ← m
    pure (.ok a)) fun e => pure (.error e)

/-! ### Binding the hardware -/

/-- The global variables of the selection. -/
structure Bound where
  targetId : Text
  cableCtx : Text
  cableSerial : Text
  deviceIndex : Text
  deriving DecidableEq

/-- The arguments of the run; `[]` where one is not given. -/
structure Arguments where
  targetId : Text
  cableSerial : Text
  deviceIndex : Text

/-- One target of the scan, by the cable if it is given and by the id otherwise. -/
def Arguments.picks (args : Arguments) (t : Target) : Bool :=
  if args.cableSerial ≠ [] then
    t.cableSerial == some args.cableSerial &&
      (args.deviceIndex == [] || t.deviceIndex == some args.deviceIndex)
  else t.targetId == some args.targetId

def scanTargets (tcl : Tcl) (args : Arguments) : ℕ → Prog (List Target)
  | 0 => pure []
  | attempts + 1 => do
    let l ← listTargets PSU .scan
    let selected := l.targets.filter fun t => tcl.named PSU t && args.picks t
    if selected ≠ [] then pure selected else scanTargets tcl args attempts

def initializeTargetSelector (tcl : Tcl) (args : Arguments) : Prog Bound :=
  if args.targetId = [] ∧ args.cableSerial = [] then pure ⟨[], [], [], args.deviceIndex⟩
  else do
    let selected ← scanTargets tcl args 20
    match selected with
    | [target] => do
      let targetId ← item target.targetId
      let deviceIndex ← match target.deviceIndex with
        | some index => pure index
        | none => Act.raise .noDeviceIndex
      let serial := target.cableSerial.getD args.cableSerial
      let ctx := target.cableCtx.getD []
      Act.require (serial ≠ [] || ctx ≠ []) .noCable
      return ⟨targetId, ctx, serial, deviceIndex⟩
    | _ => Act.raise (.notOnePsu selected.length)

/-! ### Selecting a target -/

def targetMatchesSelectedHardware (b : Bound) (t : Target) (scope : Scope) : Bool :=
  let cableMatches :=
    if b.cableSerial ≠ [] then t.cableSerial == some b.cableSerial else t.cableCtx == some b.cableCtx
  if !cableMatches || scope == .cable then cableMatches
  else t.deviceIndex == some b.deviceIndex

def selects (tcl : Tcl) (b : Bound) (pattern : Text) (scope : Scope) (t : Target) : Bool :=
  tcl.named pattern t && (b.targetId == [] || targetMatchesSelectedHardware b t scope)

/-- The attempts that are left, with what the last one found. -/
def selectLoop (tcl : Tcl) (b : Bound) (pattern : Text) (scope : Scope) :
    ℕ → ℕ → List Target → Option Error → Prog Text
  | 0, found, observed, queryError => Act.raise (.notOneTarget pattern scope found observed queryError)
  | attempts + 1, _, _, _ => do
    let answer ← caught (listTargets pattern (.query pattern))
    match answer with
    | .error e => selectLoop tcl b pattern scope attempts 0 [] (some e)
    | .ok l =>
      match l.targets.filter (selects tcl b pattern scope) with
      | [t] => do
        let id ← item t.targetId
        let ok ← caught (selectId id)
        match ok with
        | .ok () => pure id
        | .error e => selectLoop tcl b pattern scope attempts 1 l.targets (some e)
      | found => selectLoop tcl b pattern scope attempts found.length l.targets none

def selectTarget (tcl : Tcl) (b : Bound) (pattern : Text) (scope : Scope) : Prog Text :=
  selectLoop tcl b pattern scope 20 0 [] none

/-! ### Downloads -/

/-- A download, with a stop before it where an ELF is loaded. -/
def downloadLoop (tcl : Tcl) (b : Bound) (pattern : Text) (scope : Scope) (image : Image)
    (halt : Bool) (load : Command) : ℕ → Option Error → Prog Unit
  | 0, last => Act.raise (.downloadFailed image last)
  | attempts + 1, _ => do
    let _ ← selectTarget tcl b pattern scope
    if halt then do
      let _ ← caught (command .stop)
    let result ← caught (command load)
    match result with
    | .ok () => pure ()
    | .error e => downloadLoop tcl b pattern scope image halt load attempts (some e)

def downloadElfWithRetry (tcl : Tcl) (b : Bound) (pattern : Text) (image : Image) (scope : Scope) : Prog Unit :=
  downloadLoop tcl b pattern scope image true (.dow image) 3 none

def downloadDataWithRetry (tcl : Tcl) (b : Bound) (pattern : Text) (image : Image) (address : ℕ)
    (scope : Scope) : Prog Unit :=
  downloadLoop tcl b pattern scope image false (.dowData image address) 3 none

/-! ### The end of the FSBL -/

def fsblTarget (tcl : Tcl) (b : Bound) (pattern : Text) : Prog Target := do
  let l ← listTargets pattern (.query pattern)
  match l.targets.filter (selects tcl b pattern .device) with
  | [t] => pure t
  | found => Act.raise (.notOneFsblTarget pattern found.length)

def sameKey (a b : Option Text) : Bool := a.isSome && a == b

def requireFsblSuccess (tcl : Tcl) (b : Bound) : Prog Unit := do
  let core ← fsblTarget tcl b A53
  let psu ← fsblTarget tcl b PSU
  Act.require (sameKey core.cableCtx psu.cableCtx && sameKey core.deviceIndex psu.deviceIndex)
    .unboundFsblStatus
  let coreId ← item core.targetId
  let status ← caught (do
    let psuId ← item psu.targetId
    selectId psuId
    let value ← read
    Act.require (value == some 0) .fsblStatus)
  let restore ← caught (selectId coreId)
  match status with
  | .error e => Act.raise e
  | .ok () => Act.lift restore

/-- What is done once the breakpoint is set. -/
def runToBreakpoint (tcl : Tcl) (b : Bound) (address : ℤ) : Prog Unit := do
  command (.con true)
  let pc ← read
  Act.require (pc == some address) .fsblPc
  requireFsblSuccess tcl b

def runFsblToExit (tcl : Tcl) (b : Bound) : Prog Unit := do
  let symbol ← read
  match symbol with
  | none => Act.raise .fsblAddress
  | some address => do
    Act.require (0 < address && address % 4 == 0) .fsblAddress
    command .bpadd
    let status ← caught (runToBreakpoint tcl b address)
    let cleanup ← caught read
    match status with
    | .error e => Act.raise e
    | .ok () => do
      let _ ← Act.lift cleanup
      pure ()

/-! ### The boot -/

structure Config where
  boardReset : Bool
  forceJtagBoot : Bool

def switchToJtagBootMode (tcl : Tcl) (b : Bound) : Prog Unit := do
  let _ ← selectTarget tcl b PSU .device
  command (.mwr 0xffca0010 0x0)
  command (.mwr 0xff5e0200 0x0100)
  command (.rst .system)

/-- `boardReset` tells a reset of the processor from one of the board's power. -/
def pulseBoardReset (tcl : Tcl) (config : Config) (b : Bound) : Prog Unit := do
  let _ ← selectTarget tcl b PSU .device
  Act.attempt (command (.rst (if config.boardReset then .por else .srst))) fun e => Act.raise (.boardReset e)

def reconnect : Prog Unit := do
  disconnect
  connect

def forceBootMode (tcl : Tcl) (config : Config) (b : Bound) : Prog Unit :=
  if config.forceJtagBoot then do
    reconnect
    Act.attempt (switchToJtagBootMode tcl b) fun e => Act.raise (.bootMode e)
  else pure ()

/-- The environment goes through a temporary file. -/
def downloadEnvOverride (tcl : Tcl) (b : Bound) (address : ℕ) : Prog Unit := do
  let _ ← read
  downloadDataWithRetry tcl b A53 .environment address .device

def selectAnd (tcl : Tcl) (b : Bound) (pattern : Text) (scope : Scope) (c : Command) : Prog Unit := do
  let _ ← selectTarget tcl b pattern scope
  command c

def boot (tcl : Tcl) (config : Config) (b : Bound) : Prog Unit := do
  pulseBoardReset tcl config b
  forceBootMode tcl config b
  reconnect
  selectAnd tcl b PSU .device (.maskWrite 0xFFCA0038 0x1C0 0x1C0)
  downloadElfWithRetry tcl b PMU .pmufw .cable
  selectAnd tcl b PMU .cable (.con false)
  selectAnd tcl b A53 .device (.rst .cores)
  downloadElfWithRetry tcl b A53 .fsbl .device
  let _ ← selectTarget tcl b A53 .device
  runFsblToExit tcl b
  downloadElfWithRetry tcl b A53 .tfa .device
  selectAnd tcl b A53 .device (.con false)
  selectAnd tcl b A53 .device .stop
  downloadDataWithRetry tcl b A53 .systemDtb 0x100000 .device
  downloadEnvOverride tcl b 0x1ff00100
  command (.mwr 0x1ff00004 0x49504f56)
  command (.mwr 0x1ff00000 0x4d4e4350)
  downloadElfWithRetry tcl b A53 .uBoot .device
  selectAnd tcl b A53 .device (.con false)

/-- The part of a run up to the binding. -/
def bind (tcl : Tcl) (args : Arguments) : Prog Bound := do
  connect
  initializeTargetSelector tcl args

def station (tcl : Tcl) (config : Config) (args : Arguments) : Prog Unit := do
  let b ← bind tcl args
  boot tcl config b

end Monutchee.Jtag
