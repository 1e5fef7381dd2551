import Mathlib.Data.Finset.Basic
import Monutchee.System.Product

/-!
# The native adapter (backend.cpp, ptp.cpp, clock_config.cpp)

`Native::preferences`, `Native::network` and `Native::clockBootPolicy` on a machine of units
and files. Every file, D-Bus and unit operation is a named step; the environment decides for
each step of a call whether it succeeds, raises with nothing done, or raises with the work
done. A unit reads the timesyncd drop-in when it starts, and starting an active unit does
nothing.
-/

namespace Monutchee.System
open Lib Lib.Act Validation

/-! ### The machine -/

/-- The drop-in `90-mnc-time.conf`, how often it changed, the drop-ins `50-mnc-time.conf` of
the ports, the active units, and what each unit found when it was last started. -/
structure Machine where
  dropIn : Option Bytes := none
  changes : ℕ := 0
  portFile : Bytes → Option Bytes := fun _ => none
  active : Finset Bytes := ∅
  loaded : Bytes → Option (ℕ × Option Bytes) := fun _ => none

namespace Machine

def start (m : Machine) (name : Bytes) : Machine :=
  if name ∈ m.active then m
  else { m with
    active := insert name m.active
    loaded := Function.update m.loaded name (some (m.changes, m.dropIn)) }

def stop (m : Machine) (name : Bytes) : Machine := { m with active := m.active.erase name }

def writeDropIn (m : Machine) (text : Bytes) : Machine :=
  { m with dropIn := some text, changes := m.changes + 1 }

def setPortFile (m : Machine) (port : Bytes) (text : Option Bytes) : Machine :=
  { m with portFile := Function.update m.portFile port text }

end Machine

inductive Fault where
  | none
  | early (e : Error)
  | late (e : Error)
  deriving DecidableEq, Repr

/-- The operations of a call that may raise; a loop numbers its rounds. -/
inductive Step where
  | timezone | hostname | transient
  | marker (i : ℕ) | servers | port (i : ℕ)
  | stop (i : ℕ) | restop (i : ℕ) | reload | reconfigure (i : ℕ) | start (i : ℕ)
  | sshMarker | sshSocket | sshService
  | networkFile (i : ℕ)
  deriving DecidableEq, Repr

abbrev Faults := Step → Fault

abbrev Native := Act Machine Error

namespace Native

def step (f : Fault) (g : Machine → Machine) : Native Unit := fun m =>
  match f with
  | .none => (.ret (), g m)
  | .early e => (.raise e, m)
  | .late e => (.raise e, g m)

/-- unit (backend.cpp:82-102). -/
def unit (f : Fault) (name : Bytes) (start : Bool) : Native Unit :=
  step f fun m => if start then m.start name else m.stop name

/-- A loop over units, one step a round. -/
def units (faults : ℕ → Fault) (start : Bool) (names : List Bytes) : Native Unit :=
  each (fun (name, i) => unit (faults i) name start) names.zipIdx

/-! ### clockUnits (ptp.cpp:75-113) -/

/-- systemd unit-instance escaping. -/
def escape (name : Bytes) : Bytes :=
  name.flatMap fun c => if c = 45 then ascii "\\x2d" else [c]

def unitInstance (template name : Bytes) : Except Error Bytes := do
  check (validInterfaceName name && (ascii "@.service").isSuffixOf template)
    "Invalid PTP unit template or interface"
  return template.take (template.length - 8) ++ escape name ++ ascii ".service"

structure ClockUnits where
  stop : List Bytes
  start : List Bytes
  deriving DecidableEq, Repr

def selectedUnits (p : Product) (t : TimePreferences) : Except Error (List Bytes) := do
  if t.synchronization = ascii "irig" then
    if p.irigUnits.isEmpty then .error ⟨.unsupported, ascii "IRIG source profile is unavailable"⟩
    else .ok p.irigUnits
  else if t.synchronization = ascii "ptp" then
    check (p.interfaceNames.contains t.ptpInterface && !p.ptpUnitTemplates.isEmpty)
      "Selected PTP interface is not supported"
    p.ptpUnitTemplates.mapM fun template => unitInstance template t.ptpInterface
  else .ok []

/-- The two nested loops that collect the instances not yet listed. -/
def addInstances (templates : List Bytes) (all : List Bytes) (port : Bytes) :
    Except Error (List Bytes) :=
  templates.foldlM (fun all template => do
    let name ← unitInstance template port
    return if all.contains name then all else all ++ [name]) all

def clockUnits (p : Product) (t : TimePreferences) : Except Error ClockUnits := do
  let selected ← selectedUnits p t
  -- ptp_units are instances from a product policy that predates the selector.
  let instances ← p.interfaceNames.foldlM (addInstances p.ptpUnitTemplates) p.ptpUnits
  let all := instances ++ p.irigUnits
  let stop := all.reverse.filter fun name => !selected.contains name
  if t.synchronization ≠ ascii "ntp" then
    return { stop := stop ++ p.ntpUnits.reverse, start := selected }
  else return { stop := stop, start := p.ntpUnits }

/-! ### writeClockPolicy (clock_config.cpp:25-57) -/

structure ClockPolicyChanges where
  servers : Bool
  network : Bool
  deriving DecidableEq, Repr

/-- The text of `90-mnc-time.conf`. -/
def renderServers (t : TimePreferences) : Bytes :=
  ascii "[Time]\n" ++
    if t.ntpServers.isEmpty then []
    else ascii "NTP=\nNTP=" ++ t.ntpServers.flatMap (· ++ ascii " ") ++ ascii "\nFallbackNTP=\n"

def portText : Bytes := ascii "[Network]\nNTP=\n[DHCPv4]\nUseNTP=no\n[DHCPv6]\nUseNTP=no\n"

/-- readableWrite (clock_config.cpp:6-23) on the drop-in. -/
def writeServers (f : Fault) (t : TimePreferences) : Native Bool := do
  if (← gets (·.dropIn)) = some (renderServers t) then
    pure false
  else
    step f (·.writeDropIn (renderServers t))
    pure true

/-- A server list of our own suppresses the servers that DHCP offers. -/
def portDropIn (t : TimePreferences) : Option Bytes :=
  if t.ntpServers.isEmpty then none else some portText

def writePort (f : Fault) (t : TimePreferences) (port : Bytes) : Native Bool := do
  if (← gets (·.portFile port)) = portDropIn t then
    pure false
  else
    step f (·.setPortFile port (portDropIn t))
    pure true

def writePorts (faults : ℕ → Fault) (t : TimePreferences) : ℕ → List Bytes → Native Bool
  | _, [] => pure false
  | i, port :: ports => do
    lift (check (validInterfaceName port) "invalid policy interface")
    let here ← writePort (faults i) t port
    let others ← writePorts faults t (i + 1) ports
    pure (here || others)

def checkIrig (p : Product) (t : TimePreferences) : Except Error Unit :=
  if t.synchronization = ascii "irig" ∧ p.irigUnits = [] then
    .error ⟨.unsupported, ascii "IRIG source profile is unavailable"⟩
  else .ok ()

def writeClockPolicy (p : Product) (t : TimePreferences) (faults : Faults) :
    Native ClockPolicyChanges := do
  lift (validate { time := t })
  lift (checkIrig p t)
  -- The three markers that keep the services of the other modes off.
  each (fun i => step (faults (.marker i)) id) [0, 1, 2]
  let servers ← writeServers (faults .servers) t
  let network ← writePorts (fun i => faults (.port i)) t 0 p.interfaceNames
  pure { servers := servers, network := network }

/-! ### Native::preferences (backend.cpp:359-391) -/

/-- The tests of the text in runtimeTimezone (backend.cpp:430); that of the file is `runtimeZone`. -/
def checkZone (zone : Bytes) : Except Error Unit :=
  check (zone.head? != some 47 && !contains (ascii "..") zone) "invalid timezone"

/-- Timezone and host name, at run time or through their services. -/
def identity (p : Product) (c : Configuration) (faults : Faults) : Native Unit := do
  if p.runtimeEtcDirectory.isEmpty then
    step (faults .timezone) id
    step (faults .hostname) id
    step (faults .transient) id
  else
    lift (checkZone c.time.timezone)
    step (faults .timezone) id
    step (faults .hostname) id

def reloadNetwork (n : Network) (faults : Faults) : Native Unit := do
  step (faults .reload) id
  each (fun i => step (faults (.reconfigure i)) id) (List.range n.length)

/-- timesyncd reads its server list at startup. -/
def restopNtp (p : Product) (t : TimePreferences) (changed : ClockPolicyChanges) (faults : Faults) :
    Native Unit :=
  if changed.servers ∧ t.synchronization = ascii "ntp" then
    units (fun i => faults (.restop i)) false p.ntpUnits
  else pure ()

def sshPolicy (p : Product) (enabled : Bool) (faults : Faults) : Native Unit := do
  step (faults .sshMarker) id
  unit (faults .sshSocket) p.sshSocket enabled
  if enabled then pure () else unit (faults .sshService) p.sshService false

def reloadChanged (n : Network) (changed : ClockPolicyChanges) (faults : Faults) : Native Unit :=
  if changed.network then reloadNetwork n faults else pure ()

/-- The clock part (backend.cpp:377-386): the old discipline is stopped before the new one
starts. -/
def disciplines (p : Product) (c : Configuration) (changed : ClockPolicyChanges) (r : ClockUnits)
    (faults : Faults) : Native Unit := do
  units (fun i => faults (.stop i)) false r.stop
  restopNtp p c.time changed faults
  reloadChanged c.system.network changed faults
  units (fun i => faults (.start i)) true r.start

def preferences (p : Product) (c : Configuration) (faults : Faults) : Native Unit := do
  identity p c faults
  let changed ← writeClockPolicy p c.time faults
  let clocks ← lift (clockUnits p c.time)
  disciplines p c changed clocks faults
  sshPolicy p c.system.sshEnabled faults

/-! ### Native::network and clockBootPolicy (backend.cpp:392-441) -/

/-- The test of the name in interfacePolicy (backend.cpp:180-183); with the hardware it is `interfacePolicyOn`. -/
def interfacePolicy (p : Product) (name : Bytes) : Except Error Unit :=
  check (p.interfaceNames.contains name) "interface is not managed by this product"

/-- One round of the loop; renderNetwork validates the interface on its own. -/
def writeInterface (p : Product) (f : Fault) (c : NetworkConfig) : Native Unit := do
  lift (interfacePolicy p c.interface)
  lift (validateNetwork [c])
  step f id

def network (p : Product) (configs : Network) (bootstrap : Bool) (faults : Faults) :
    Native Unit := do
  lift (validateNetwork configs)
  lift (check (configs.length == p.interfaces.length) "supply all managed interfaces")
  each (fun (c, i) => writeInterface p (faults (.networkFile i)) c) configs.zipIdx
  if bootstrap then pure () else reloadNetwork configs faults

def bootTimezone (p : Product) (t : TimePreferences) (faults : Faults) : Native Unit := do
  if p.runtimeEtcDirectory.isEmpty then pure ()
  else
    lift (checkZone t.timezone)
    step (faults .timezone) id

def clockBootPolicy (p : Product) (t : TimePreferences) (faults : Faults) : Native Unit := do
  bootTimezone p t faults
  let _ ← writeClockPolicy p t faults

def sshBootPolicy (faults : Faults) : Native Unit := step (faults .sshMarker) id

end Native

end Monutchee.System
