import Mathlib.Data.List.Lex
import Monutchee.Lib.Sorted
import Monutchee.System.Instances

/-!
# The check of a configuration against the hardware (backend.cpp:180-190, 335-349, ptp.cpp:32-73)

`Native::validateConfiguration` with the PTP interfaces it discovers. What is listed and may be
selected is described interface by interface. The calls that apply a configuration look at the
hardware again, for the identity of an interface and for the file of the time zone. One that was
accepted is refused by these two looks only, and not at all while the hardware answers as before:
what the calls then raise is what the machine raises.
-/

namespace Monutchee.System.Native
open Lib Lib.Act Validation

structure TimestampCapabilities where
  phcIndex : ℤ := -1
  hardware : Bool := false
  deriving DecidableEq, Repr

/-- `PtpInterface` (`system.hpp:112-119`). -/
structure PtpInterface where
  interface : Bytes
  carrier : Bool := false
  hardwareTimestamping : Bool := false
  phcIndex : ℤ := -1
  selectable : Bool := false
  reason : Bytes := []
  deriving DecidableEq, Repr

/-- What the kernel and timedated say: the directory of the interfaces, the number in the file `carrier` (zero if it
cannot be read), the answer to the timestamp query, if_nametoindex, whether `device/of_node` exists and the name of
its canonical path, the installed time zones, and whether the file of a zone is a regular one. -/
structure Hardware where
  listing : Except Error (List Bytes)
  carrier : Bytes → ℤ
  query : Bytes → TimestampCapabilities
  indexed : Bytes → Bool
  present : Bytes → Except Error Bool
  node : Bytes → Except Error Bytes
  zones : Except Error (List Bytes)
  zoneFile : Bytes → Except Error Bool

section Discovery
variable (p : Product) (h : Hardware)

/-- The first policy of an interface. -/
def policyOf (name : Bytes) : Option InterfacePolicy := p.interfaces.find? fun policy => policy.name == name

/-- A product may bind a name to one device. -/
def managed (name : Bytes) : Bool :=
  match policyOf p name with
  | none => false
  | some policy =>
    policy.deviceTreeNode.isEmpty ||
      match h.node name with
      | .ok node => node == policy.deviceTreeNode
      | .error _ => false

/-- Why an interface cannot be selected. -/
def refusal (name : Bytes) : Option Bytes :=
  if !managed p h name then some (ascii "Interface is not managed by this product")
  else if p.ptpUnitTemplates.isEmpty then some (ascii "PTP is unavailable on this product")
  else if !(h.query name).hardware then some (ascii "Hardware PTP timestamps are unavailable")
  else none

def ptpInterface (name : Bytes) : PtpInterface where
  interface := name
  carrier := h.carrier name == 1
  hardwareTimestamping := (h.query name).hardware
  phcIndex := (h.query name).phcIndex
  selectable := (refusal p h name).isNone
  reason := (refusal p h name).getD []

def listed (name : Bytes) : Bool := validInterfaceName name && name != ascii "lo"

/-- The bytes of two names are compared as unsigned numbers. -/
def nameKey (name : Bytes) : List ℕ := name.map UInt8.toNat

def discoverPtpInterfaces : Except Error (List PtpInterface) := do
  let names ← h.listing
  return sortBy (fun i => nameKey i.interface) ((names.filter listed).map (ptpInterface p h))

end Discovery

def validatePtpSelection (t : TimePreferences) (interfaces : List PtpInterface) : Except Error Unit :=
  if t.synchronization ≠ ascii "ptp" then .ok ()
  else
    match interfaces.find? fun i => i.interface == t.ptpInterface with
    | none => .error ⟨.invalidArgument, ascii "Selected PTP interface is unavailable"⟩
    | some found => if found.selectable then .ok () else .error ⟨.invalidArgument, found.reason⟩

def interfaceIdentity (h : Hardware) (policy : InterfacePolicy) (name : Bytes) : Except Error Unit := do
  let mismatch : Error := ⟨.invalidArgument, ascii "interface hardware identity mismatch"⟩
  if !h.indexed name then .error mismatch
  else if policy.deviceTreeNode.isEmpty then .ok ()
  else
    let node ← h.node name
    if node != policy.deviceTreeNode then .error mismatch else .ok ()

/-- `interfacePolicy` (`backend.cpp:180-190`). -/
def interfacePolicyOn (p : Product) (h : Hardware) (boot : Bool) (name : Bytes) : Except Error Unit := do
  match policyOf p name with
  | none => .error ⟨.invalidArgument, ascii "interface is not managed by this product"⟩
  | some policy =>
    if boot then
      -- The device may come later; its file matches the installed name only.
      let there ← h.present name
      if there then interfaceIdentity h policy name else .ok ()
    else interfaceIdentity h policy name

def validateConfiguration (p : Product) (h : Hardware) (c : Configuration) : Except Error Unit := do
  validate c
  check (c.system.network.length == p.interfaces.length) "supply all managed interfaces"
  c.system.network.forM fun n => interfacePolicyOn p h false n.interface
  let zones ← h.zones
  check (zones.contains c.time.timezone) "timezone is not installed"
  let interfaces ← discoverPtpInterfaces p h
  validatePtpSelection c.time interfaces
  checkIrig p c.time

/-! ### What is discovered -/

section Discovered
variable {p : Product} {h : Hardware} {names : List Bytes} {name : Bytes} {l : List PtpInterface}

theorem nameKey_injective : Function.Injective nameKey := List.map_injective_iff.mpr fun _ _ => UInt8.toNat_inj.mp

theorem discover_ok (hl : h.listing = .ok names) :
    discoverPtpInterfaces p h =
      .ok (sortBy (fun i => nameKey i.interface) ((names.filter listed).map (ptpInterface p h))) := by
  unfold discoverPtpInterfaces
  rw [hl]
  rfl

theorem mem_discovered (i : PtpInterface) :
    i ∈ sortBy (fun i => nameKey i.interface) ((names.filter listed).map (ptpInterface p h)) ↔
      ∃ name ∈ names, listed name = true ∧ i = ptpInterface p h name := by
  rw [mem_sortBy, List.mem_map]
  constructor
  · intro hi
    obtain ⟨name, hname, hi⟩ := hi
    rw [List.mem_filter] at hname
    exact ⟨name, hname.1, hname.2, hi.symm⟩
  · intro hi
    obtain ⟨name, hname, hlisted, hi⟩ := hi
    exact ⟨name, List.mem_filter.mpr ⟨hname, hlisted⟩, hi.symm⟩

/-- The entry that the selection finds is the one of the interface. -/
theorem find_discovered (hl : ∀ i ∈ l, i = ptpInterface p h i.interface) (name : Bytes) :
    l.find? (fun i => i.interface == name) =
      if name ∈ l.map (·.interface) then some (ptpInterface p h name) else none := by
  by_cases hname : name ∈ l.map (·.interface)
  · rw [if_pos hname]
    obtain ⟨i, hi, hsame⟩ := List.mem_map.mp hname
    cases hfind : l.find? (fun i => i.interface == name) with
    | none =>
      have hno := List.find?_eq_none.mp hfind i hi
      simp [hsame] at hno
    | some found =>
      have hmem := List.mem_of_find?_eq_some hfind
      have hinterface : found.interface = name := by simpa using List.find?_some hfind
      rw [hl found hmem, hinterface]
  · rw [if_neg hname, List.find?_eq_none]
    intro i hi hsame
    exact hname (List.mem_map.mpr ⟨i, hi, by simpa using hsame⟩)

end Discovered

/-- What a selectable interface needs: a policy for its name and its device, templates, and hardware timestamps. -/
structure Selectable (p : Product) (h : Hardware) (name : Bytes) : Prop where
  policy : ∃ policy, policyOf p name = some policy ∧
    (policy.deviceTreeNode = [] ∨ h.node name = .ok policy.deviceTreeNode)
  templates : p.ptpUnitTemplates ≠ []
  hardware : (h.query name).hardware = true

section Selected
variable {p : Product} {h : Hardware} {names : List Bytes} {name : Bytes} {t : TimePreferences} {l : List PtpInterface}

theorem managed_iff : managed p h name = true ↔ ∃ policy, policyOf p name = some policy ∧
    (policy.deviceTreeNode = [] ∨ h.node name = .ok policy.deviceTreeNode) := by
  unfold managed
  cases policyOf p name with
  | none => simp
  | some policy =>
    cases h.node name with
    | ok node => simp
    | error e => simp

theorem refusal_none : refusal p h name = none ↔ Selectable p h name := by
  unfold refusal
  constructor
  · intro hnone
    split at hnone
    · cases hnone
    · split at hnone
      · cases hnone
      · split at hnone
        · cases hnone
        · rename_i hm ht hh
          exact ⟨managed_iff.mp (by simpa using hm), by simpa using ht, by simpa using hh⟩
  · intro hs
    have hm := managed_iff.mpr hs.policy
    have ht : p.ptpUnitTemplates.isEmpty = false := by simpa using hs.templates
    simp [hm, ht, hs.hardware]

theorem refusal_text {reason : Bytes} (hr : refusal p h name = some reason) : reason ≠ [] := by
  unfold refusal at hr
  split at hr
  · injection hr with hr
    rw [← hr]
    decide
  · split at hr
    · injection hr with hr
      rw [← hr]
      decide
    · split at hr
      · injection hr with hr
        rw [← hr]
        decide
      · cases hr

theorem discovered_self {i : PtpInterface}
    (hi : i ∈ sortBy (fun i => nameKey i.interface) ((names.filter listed).map (ptpInterface p h))) :
    i = ptpInterface p h i.interface := by
  obtain ⟨name, -, -, hi⟩ := (mem_discovered i).mp hi
  rw [hi]
  rfl

theorem discovered_name :
    name ∈ (sortBy (fun i => nameKey i.interface) ((names.filter listed).map (ptpInterface p h))).map (·.interface) ↔
      name ∈ names ∧ listed name = true := by
  rw [List.mem_map]
  constructor
  · intro hi
    obtain ⟨i, hi, hsame⟩ := hi
    obtain ⟨name', hname, hlisted, hi⟩ := (mem_discovered i).mp hi
    rw [hi] at hsame
    have hsame : name' = name := hsame
    exact hsame ▸ ⟨hname, hlisted⟩
  · intro hname
    exact ⟨ptpInterface p h name, (mem_discovered _).mpr ⟨name, hname.1, hname.2, rfl⟩, rfl⟩

theorem validatePtpSelection_ok (ht : t.synchronization = ascii "ptp") (hl : ∀ i ∈ l, i = ptpInterface p h i.interface) :
    validatePtpSelection t l = .ok () ↔ t.ptpInterface ∈ l.map (·.interface) ∧ Selectable p h t.ptpInterface := by
  unfold validatePtpSelection
  rw [if_neg (not_not_intro ht), find_discovered hl, ← refusal_none]
  by_cases hname : t.ptpInterface ∈ l.map (·.interface)
  · rw [if_pos hname]
    cases hr : refusal p h t.ptpInterface with
    | none => simp [ptpInterface, hr, hname]
    | some reason => simp [ptpInterface, hr]
  · simp [hname]

theorem validatePtpSelection_error {e : Error} (hl : ∀ i ∈ l, i = ptpInterface p h i.interface)
    (he : validatePtpSelection t l = .error e) :
    t.synchronization = ascii "ptp" ∧ e.code = .invalidArgument ∧ e.message ≠ [] ∧
      ∀ i ∈ l, i.interface = t.ptpInterface → i.selectable = false ∧ i.reason = e.message := by
  unfold validatePtpSelection at he
  split at he
  · cases he
  · rename_i ht
    rw [find_discovered hl] at he
    refine ⟨not_not.mp ht, ?_⟩
    by_cases hname : t.ptpInterface ∈ l.map (·.interface)
    · rw [if_pos hname] at he
      cases hr : refusal p h t.ptpInterface with
      | none => simp [ptpInterface, hr] at he
      | some reason =>
        simp only [ptpInterface, hr, Option.isNone_some, Option.getD_some, Bool.false_eq_true, if_false] at he
        injection he with he
        subst he
        refine ⟨rfl, refusal_text hr, ?_⟩
        intro i hi hsame
        rw [hl i hi, hsame]
        simp [ptpInterface, hr]
    · rw [if_neg hname] at he
      injection he with he
      subst he
      refine ⟨rfl, by decide, ?_⟩
      intro i hi hsame
      exact absurd (List.mem_map.mpr ⟨i, hi, hsame⟩) hname

end Selected

/-- The discovered interfaces are those of the kernel with a proper name, but the loopback, each once and in the order
of their names. A selection for PTP is accepted exactly if it is one of them with a policy of the product for this
device, with templates and with hardware timestamps. An error says what the list says of the interface. -/
theorem ptp_selection (p : Product) (h : Hardware) {names : List Bytes} (hl : h.listing = .ok names) (hn : names.Nodup) :
    ∃ l, discoverPtpInterfaces p h = .ok l ∧ l.Pairwise (fun a b => nameKey a.interface < nameKey b.interface) ∧
      (∀ i, i ∈ l ↔ ∃ name ∈ names, listed name = true ∧ i = ptpInterface p h name) ∧
      (∀ t : TimePreferences, t.synchronization = ascii "ptp" → (validatePtpSelection t l = .ok () ↔
        (t.ptpInterface ∈ names ∧ listed t.ptpInterface = true) ∧ Selectable p h t.ptpInterface)) ∧
      ∀ t e, validatePtpSelection t l = .error e → t.synchronization = ascii "ptp" ∧ e.code = .invalidArgument ∧
        e.message ≠ [] ∧ ∀ i ∈ l, i.interface = t.ptpInterface → i.selectable = false ∧ i.reason = e.message := by
  refine ⟨_, discover_ok hl, ?_, mem_discovered, ?_, ?_⟩
  · apply sortBy_lt
    have hkeys : ((names.filter listed).map (ptpInterface p h)).map (fun i => nameKey i.interface) =
        (names.filter listed).map nameKey := by
      rw [List.map_map]
      rfl
    rw [hkeys]
    exact (hn.filter _).map nameKey_injective
  · intro t ht
    rw [validatePtpSelection_ok ht fun _ => discovered_self, discovered_name]
  · intro t e he
    exact validatePtpSelection_error (fun _ => discovered_self) he

namespace Fixture

/-- The interfaces of ptp_test.cpp. -/
def hardware : Hardware where
  listing := .ok [ascii "usb0", ascii "lo", ascii "lan7", ascii "enp2s0"]
  carrier name := if name = ascii "lan7" then 1 else 0
  query name := ⟨3, name != ascii "usb0"⟩
  indexed _ := true
  present _ := .ok false
  node _ := .error ⟨.unavailable, ascii "No such file or directory"⟩
  zones := .ok [ascii "UTC"]
  zoneFile zone := .ok (zone == ascii "UTC")

/-- An address by DHCP on each port. -/
def accepted : Configuration :=
  { ptp with system := { network := [{ interface := ascii "lan7" }, { interface := ascii "enp2s0" }] } }

end Fixture

theorem ptp_selection_lan7 : ∃ l, discoverPtpInterfaces Fixture.product Fixture.hardware = .ok l ∧
    validatePtpSelection Fixture.ptp.time l = .ok () ∧
    validatePtpSelection { Fixture.ptp.time with ptpInterface := ascii "usb0" } l =
      .error ⟨.invalidArgument, ascii "Interface is not managed by this product"⟩ := by
  have hlisting : Fixture.hardware.listing = .ok [ascii "usb0", ascii "lo", ascii "lan7", ascii "enp2s0"] := rfl
  obtain ⟨l, hl, -, -, hok, -⟩ := ptp_selection Fixture.product Fixture.hardware hlisting (by decide)
  have hports : (ascii "enp2s0" ∈ [ascii "usb0", ascii "lo", ascii "lan7", ascii "enp2s0"] ∧
      listed (ascii "enp2s0") = true) ∧ refusal Fixture.product Fixture.hardware (ascii "enp2s0") = none := by
    decide
  refine ⟨l, hl, (hok _ rfl).mpr ⟨hports.1, refusal_none.mp hports.2⟩, ?_⟩
  have hrun : (discoverPtpInterfaces Fixture.product Fixture.hardware >>= validatePtpSelection
      { Fixture.ptp.time with ptpInterface := ascii "usb0" }) =
        .error ⟨.invalidArgument, ascii "Interface is not managed by this product"⟩ := by decide
  rw [hl] at hrun
  exact hrun

/-! ### The calls on the hardware -/

/-- The first test of runtimeTimezone (backend.cpp:430). -/
def runtimeZone (p : Product) (h : Hardware) (zone : Bytes) : Except Error Unit := do
  if p.runtimeEtcDirectory.isEmpty then .ok ()
  else
    let file ← h.zoneFile zone
    check file "invalid timezone"

def preferencesOn (p : Product) (h : Hardware) (c : Configuration) (faults : Faults) : Native Unit := do
  lift (runtimeZone p h c.time.timezone)
  preferences p c faults

def writeInterfaceOn (p : Product) (h : Hardware) (boot : Bool) (f : Fault) (c : NetworkConfig) : Native Unit := do
  lift (interfacePolicyOn p h boot c.interface)
  writeInterface p f c

/-- `Native::network` (`backend.cpp:392-415`); each round meets the hardware of its moment. -/
def networkOn (p : Product) (now : ℕ → Hardware) (configs : Network) (bootstrap : Bool) (faults : Faults) :
    Native Unit := do
  lift (validateNetwork configs)
  lift (check (configs.length == p.interfaces.length) "supply all managed interfaces")
  each (fun (c, i) => writeInterfaceOn p (now i) bootstrap (faults (.networkFile i)) c) configs.zipIdx
  if bootstrap then pure () else reloadNetwork configs faults

def clockBootPolicyOn (p : Product) (h : Hardware) (t : TimePreferences) (faults : Faults) : Native Unit := do
  lift (runtimeZone p h t.timezone)
  clockBootPolicy p t faults

/-! ### What a call may raise -/

/-- From any machine the program comes to an end, and an error is an allowed one. -/
def Raises {α : Type} (allowed : Error → Prop) (a : Native α) : Prop :=
  ∀ m, Ends a m (fun _ _ => True) fun e _ => allowed e

def Caused (faults : Faults) (e : Error) : Prop := ∃ step, faults step = .early e ∨ faults step = .late e

/-- An error is one of a step that failed. -/
abbrev OnlyFaults {α : Type} (faults : Faults) (a : Native α) : Prop := Raises (Caused faults) a

section Rules
variable {α β : Type} {faults : Faults} {allowed : Error → Prop} {p : Product} {c : Configuration} {t : TimePreferences}

theorem Raises.pure (a : α) : Raises allowed (Pure.pure a : Native α) := fun _ => Ends.ret rfl trivial

theorem Raises.bind {a : Native α} {f : α → Native β} (ha : Raises allowed a) (hf : ∀ x, Raises allowed (f x)) :
    Raises allowed (a >>= f) := fun m => Ends.bind (ha m) fun x m' _ => hf x m'

theorem Raises.get {g : Machine → α} {f : α → Native β} (hf : ∀ x, Raises allowed (f x)) :
    Raises allowed (gets g >>= f) := fun m => Ends.get (hf (g m) m)

theorem Raises.lift {x : Except Error α} (hx : ∀ e, x = .error e → allowed e) : Raises allowed (Act.lift x : Native α) := by
  intro m
  cases h : x with
  | ok a => exact Ends.ret rfl trivial
  | error e => exact Ends.raised rfl (hx e h)

theorem Raises.passed {x : Except Error α} {a : α} (hx : x = .ok a) : Raises allowed (Act.lift x : Native α) :=
  Raises.lift (Only.ok hx)

theorem Raises.each {f : β → Native Unit} {xs : List β} (hf : ∀ x ∈ xs, Raises allowed (f x)) :
    Raises allowed (Act.each f xs) :=
  fun _ => Ends.each_mem (fun _ _ => True) (fun _ x m hx _ => hf x hx m) [] trivial

theorem Raises.mono {a : Native α} {more : Error → Prop} (ha : Raises allowed a) (hmore : ∀ e, allowed e → more e) :
    Raises more a := fun m => (ha m).mono (fun _ _ h => h) fun e _ h => hmore e h

theorem OnlyFaults.step (s : Step) (g : Machine → Machine) : OnlyFaults faults (step (faults s) g) := by
  intro m
  cases hf : faults s with
  | none => exact Ends.ret rfl trivial
  | early e => exact Ends.raised rfl ⟨s, .inl hf⟩
  | late e => exact Ends.raised rfl ⟨s, .inr hf⟩

theorem units_onlyFaults (number : ℕ → Step) (start : Bool) (names : List Bytes) :
    OnlyFaults faults (units (fun i => faults (number i)) start names) :=
  Raises.each fun x _ => OnlyFaults.step (number x.2) _

theorem reloadNetwork_onlyFaults (n : Network) : OnlyFaults faults (reloadNetwork n faults) :=
  Raises.bind (OnlyFaults.step .reload id) fun _ => Raises.each fun i _ => OnlyFaults.step (.reconfigure i) id

theorem writeServers_onlyFaults : OnlyFaults faults (writeServers (faults .servers) t) := by
  apply Raises.get
  intro text
  split
  · exact Raises.pure _
  · exact Raises.bind (OnlyFaults.step .servers _) fun _ => Raises.pure _

theorem writePort_onlyFaults (i : ℕ) (port : Bytes) : OnlyFaults faults (writePort (faults (.port i)) t port) := by
  apply Raises.get
  intro text
  split
  · exact Raises.pure _
  · exact Raises.bind (OnlyFaults.step (.port i) _) fun _ => Raises.pure _

theorem writePorts_onlyFaults {ports : List Bytes} (hports : ∀ port ∈ ports, validInterfaceName port = true) (i : ℕ) :
    OnlyFaults faults (writePorts (fun i => faults (.port i)) t i ports) := by
  induction ports generalizing i with
  | nil => exact Raises.pure _
  | cons port ports ih =>
    have hcheck : check (validInterfaceName port) "invalid policy interface" = .ok () :=
      check_ok.mpr (hports port (List.mem_cons_self ..))
    apply Raises.bind (Raises.passed hcheck)
    intro _
    apply Raises.bind (writePort_onlyFaults i port)
    intro here
    apply Raises.bind (ih (fun q hq => hports q (List.mem_cons_of_mem _ hq)) (i + 1))
    intro others
    exact Raises.pure _

theorem disciplines_onlyFaults (changed : ClockPolicyChanges) (r : ClockUnits) :
    OnlyFaults faults (disciplines p c changed r faults) := by
  apply Raises.bind (units_onlyFaults .stop false r.stop)
  intro _
  apply Raises.bind
  · unfold restopNtp
    split
    · exact units_onlyFaults .restop false p.ntpUnits
    · exact Raises.pure _
  · intro _
    apply Raises.bind
    · unfold reloadChanged
      split
      · exact reloadNetwork_onlyFaults _
      · exact Raises.pure _
    · intro _
      exact units_onlyFaults .start true r.start

theorem sshPolicy_onlyFaults (enabled : Bool) : OnlyFaults faults (sshPolicy p enabled faults) := by
  apply Raises.bind (OnlyFaults.step .sshMarker id)
  intro _
  apply Raises.bind (OnlyFaults.step .sshSocket _)
  intro _
  split
  · exact Raises.pure _
  · exact OnlyFaults.step .sshService _

end Rules

/-! ### An accepted configuration -/

/-- What the calls that apply a configuration check of it. -/
structure Applicable (p : Product) (c : Configuration) : Prop where
  valid : validate c = .ok ()
  complete : c.system.network.length = p.interfaces.length
  ports : ∀ port ∈ p.interfaceNames, validInterfaceName port = true
  policies : ∀ n ∈ c.system.network, p.interfaceNames.contains n.interface = true
  irig : checkIrig p c.time = .ok ()
  units : ∃ r, clockUnits p c.time = .ok r

section Accepted
variable {p : Product} {h : Hardware} {c : Configuration} {faults : Faults}

/-- What the check in force finds about an interface. -/
theorem interfacePolicyOn_ok {name : Bytes} (hi : interfacePolicyOn p h false name = .ok ()) :
    ∃ policy, policyOf p name = some policy ∧ interfaceIdentity h policy name = .ok () := by
  unfold interfacePolicyOn at hi
  cases hpolicy : policyOf p name with
  | none =>
    rw [hpolicy] at hi
    cases hi
  | some policy =>
    rw [hpolicy] at hi
    exact ⟨policy, rfl, hi⟩

theorem policyOf_mem {name : Bytes} {policy : InterfacePolicy} (hpolicy : policyOf p name = some policy) :
    name ∈ p.interfaceNames := by
  have hname : policy.name = name := by simpa using List.find?_some hpolicy
  exact List.mem_map.mpr ⟨policy, List.mem_of_find?_eq_some hpolicy, hname⟩

/-- As many valid names as the policy has, all different and all in the policy, are the names of the policy. -/
theorem ports_valid (hvalid : validateNetwork c.system.network = .ok ())
    (hlength : c.system.network.length = p.interfaces.length)
    (hpolicies : ∀ n ∈ c.system.network, n.interface ∈ p.interfaceNames) :
    ∀ port ∈ p.interfaceNames, validInterfaceName port = true := by
  obtain ⟨hnames, hnodup, -⟩ := validateInterfaces_mem (validateNetwork_ok.mp hvalid).2.2
  have hsub : c.system.network.map (·.interface) ⊆ p.interfaceNames := by
    intro name hname
    obtain ⟨n, hn, hsame⟩ := List.mem_map.mp hname
    exact hsame ▸ hpolicies n hn
  have hcount : p.interfaceNames.length ≤ (c.system.network.map (·.interface)).length := by
    rw [Product.interfaceNames, List.length_map, List.length_map, hlength]
  have hperm := (hnodup.subperm hsub).perm_of_length_le hcount
  intro port hport
  obtain ⟨n, hn, hsame⟩ := List.mem_map.mp (hperm.mem_iff.mpr hport)
  exact hsame ▸ (hnames n hn).1

theorem clockUnits_returns (ht : ∀ template ∈ p.ptpUnitTemplates, (ascii "@.service").isSuffixOf template = true)
    (hports : ∀ port ∈ p.interfaceNames, validInterfaceName port = true) {t : TimePreferences}
    (hirig : checkIrig p t = .ok ())
    (hptp : t.synchronization = ascii "ptp" → t.ptpInterface ∈ p.interfaceNames ∧ p.ptpUnitTemplates ≠ []) :
    ∃ r, clockUnits p t = .ok r := by
  have hinstance : ∀ port ∈ p.interfaceNames, ∀ template ∈ p.ptpUnitTemplates,
      ∃ unit, unitInstance template port = .ok unit :=
    fun port hport template htemplate => unitInstance_valid (hports port hport) (ht template htemplate)
  have hselected : ∃ selected, selectedUnits p t = .ok selected := by
    unfold selectedUnits
    by_cases hi : t.synchronization = ascii "irig"
    · unfold checkIrig at hirig
      rw [if_pos hi]
      by_cases hnone : p.irigUnits = []
      · rw [if_pos ⟨hi, hnone⟩] at hirig
        cases hirig
      · exact ⟨_, if_neg (by simpa using hnone)⟩
    · rw [if_neg hi]
      by_cases hp : t.synchronization = ascii "ptp"
      · obtain ⟨hport, htemplates⟩ := hptp hp
        obtain ⟨units, hunits⟩ := mapM_returns (hinstance _ hport)
        refine ⟨units, ?_⟩
        rw [if_pos hp, then_ok, check_ok]
        exact ⟨by simp [hport, htemplates], hunits⟩
      · exact ⟨_, if_neg hp⟩
  have hall : ∃ instances, p.interfaceNames.foldlM (addInstances p.ptpUnitTemplates) p.ptpUnits = .ok instances := by
    apply foldlM_returns
    intro all port hport
    apply foldlM_returns
    intro all template htemplate
    obtain ⟨unit, hunit⟩ := hinstance port hport template htemplate
    exact ⟨_, by rw [hunit]; rfl⟩
  obtain ⟨selected, hselected⟩ := hselected
  obtain ⟨instances, hall⟩ := hall
  unfold clockUnits
  rw [hselected]
  show ∃ r, (p.interfaceNames.foldlM (addInstances p.ptpUnitTemplates) p.ptpUnits >>= _) = Except.ok r
  rw [hall]
  by_cases hn : t.synchronization ≠ ascii "ntp"
  · exact ⟨_, if_pos hn⟩
  · exact ⟨_, if_neg hn⟩

/-- For a product with proper templates the check of a configuration is as strict as the calls that apply it. -/
theorem validateConfiguration_applicable
    (ht : ∀ template ∈ p.ptpUnitTemplates, (ascii "@.service").isSuffixOf template = true)
    (hv : validateConfiguration p h c = .ok ()) : Applicable p c := by
  unfold validateConfiguration at hv
  rw [then_ok, then_ok, check_ok, then_ok] at hv
  obtain ⟨hvalid, hlength, hidentity, hv⟩ := hv
  cases hzones : h.zones with
  | error e =>
    rw [hzones] at hv
    cases hv
  | ok zones =>
    rw [hzones] at hv
    have hv : (check (zones.contains c.time.timezone) "timezone is not installed" >>= _) = Except.ok () := hv
    rw [then_ok] at hv
    obtain ⟨-, hv⟩ := hv
    cases hlisting : h.listing with
    | error e =>
      unfold discoverPtpInterfaces at hv
      rw [hlisting] at hv
      cases hv
    | ok names =>
      rw [discover_ok hlisting] at hv
      have hv : (validatePtpSelection c.time _ >>= _) = Except.ok () := hv
      rw [then_ok] at hv
      obtain ⟨hptp, hirig⟩ := hv
      have hcomplete : c.system.network.length = p.interfaces.length := by simpa using hlength
      have hpolicies : ∀ n ∈ c.system.network, n.interface ∈ p.interfaceNames := by
        intro n hn
        obtain ⟨policy, hpolicy, -⟩ := interfacePolicyOn_ok (forM_ok.mp hidentity n hn)
        exact policyOf_mem hpolicy
      have hports := ports_valid (validate_ok.mp hvalid).2.2 hcomplete hpolicies
      refine ⟨hvalid, hcomplete, hports, fun n hn => List.contains_iff_mem.mpr (hpolicies n hn), hirig, ?_⟩
      apply clockUnits_returns ht hports hirig
      intro hsync
      obtain ⟨-, hselectable⟩ := (validatePtpSelection_ok hsync fun _ => discovered_self).mp hptp
      obtain ⟨policy, hpolicy, -⟩ := hselectable.policy
      exact ⟨policyOf_mem hpolicy, hselectable.templates⟩

theorem Applicable.zone (ha : Applicable p c) : checkZone c.time.timezone = .ok () := by
  have htime := (validate_ok.mp ha.valid).2.1.timezone
  unfold validTimezone at htime
  simp only [Bool.and_eq_true] at htime
  unfold checkZone
  rw [check_ok, Bool.and_eq_true]
  exact ⟨htime.1.1.2, htime.1.2⟩

theorem writeClockPolicy_onlyFaults (ha : Applicable p c) : OnlyFaults faults (writeClockPolicy p c.time faults) := by
  have hvalid : validate { time := c.time } = .ok () := by
    have hsystem : validHostname ({} : Configuration).system.hostname = true ∧
        validateNetwork ({} : Configuration).system.network = .ok () := by decide
    exact validate_ok.mpr ⟨hsystem.1, (validate_ok.mp ha.valid).2.1, hsystem.2⟩
  apply Raises.bind (Raises.passed hvalid)
  intro _
  apply Raises.bind (Raises.passed ha.irig)
  intro _
  apply Raises.bind (Raises.each fun i _ => OnlyFaults.step (.marker i) id)
  intro _
  apply Raises.bind writeServers_onlyFaults
  intro servers
  apply Raises.bind (writePorts_onlyFaults ha.ports 0)
  intro network
  exact Raises.pure _

theorem identity_onlyFaults (ha : Applicable p c) : OnlyFaults faults (identity p c faults) := by
  unfold identity
  split
  · apply Raises.bind (OnlyFaults.step .timezone id)
    intro _
    exact Raises.bind (OnlyFaults.step .hostname id) fun _ => OnlyFaults.step .transient id
  · apply Raises.bind (Raises.passed ha.zone)
    intro _
    exact Raises.bind (OnlyFaults.step .timezone id) fun _ => OnlyFaults.step .hostname id

theorem preferences_onlyFaults (ha : Applicable p c) : OnlyFaults faults (preferences p c faults) := by
  obtain ⟨r, hr⟩ := ha.units
  apply Raises.bind (identity_onlyFaults ha)
  intro _
  apply Raises.bind (writeClockPolicy_onlyFaults ha)
  intro changed
  apply Raises.bind (Raises.passed hr)
  intro clocks
  apply Raises.bind (disciplines_onlyFaults changed clocks)
  intro _
  exact sshPolicy_onlyFaults c.system.sshEnabled

theorem writeInterface_onlyFaults (ha : Applicable p c) {n : NetworkConfig} (hn : n ∈ c.system.network) (i : ℕ) :
    OnlyFaults faults (writeInterface p (faults (.networkFile i)) n) := by
  have hpolicy : interfacePolicy p n.interface = .ok () := check_ok.mpr (ha.policies n hn)
  apply Raises.bind (Raises.passed hpolicy)
  intro _
  have hone := validateNetwork_one (validate_ok.mp ha.valid).2.2 hn
  exact Raises.bind (Raises.passed hone) fun _ => OnlyFaults.step (.networkFile i) id

/-- The only refusal of the network is that of interfacePolicy in some round. -/
theorem networkOn_raises (ha : Applicable p c) (now : ℕ → Hardware) (bootstrap : Bool) :
    Raises (fun e => Caused faults e ∨
      ∃ n ∈ c.system.network, ∃ i, interfacePolicyOn p (now i) bootstrap n.interface = .error e)
      (networkOn p now c.system.network bootstrap faults) := by
  have hcomplete : check (c.system.network.length == p.interfaces.length) "supply all managed interfaces" = .ok () :=
    check_ok.mpr (by simpa using ha.complete)
  apply Raises.bind (Raises.passed (validate_ok.mp ha.valid).2.2)
  intro _
  apply Raises.bind (Raises.passed hcomplete)
  intro _
  apply Raises.bind
  · apply Raises.each
    intro x hx
    have hn : x.1 ∈ c.system.network := List.fst_mem_of_mem_zipIdx hx
    apply Raises.bind
    · exact Raises.lift fun e he => .inr ⟨x.1, hn, x.2, he⟩
    · intro _
      exact (writeInterface_onlyFaults ha hn x.2).mono fun _ he => .inl he
  · intro _
    split
    · exact Raises.pure _
    · exact (reloadNetwork_onlyFaults _).mono fun _ he => .inl he

theorem clockBootPolicy_onlyFaults (ha : Applicable p c) : OnlyFaults faults (clockBootPolicy p c.time faults) := by
  apply Raises.bind
  · unfold bootTimezone
    split
    · exact Raises.pure _
    · exact Raises.bind (Raises.passed ha.zone) fun _ => OnlyFaults.step .timezone id
  · intro _
    exact Raises.bind (writeClockPolicy_onlyFaults ha) fun _ => Raises.pure _

/-- A call behind the look at the zone's file. -/
theorem behindZone_raises {a : Native Unit} (ha : OnlyFaults faults a) (zone : Bytes) :
    Raises (fun e => Caused faults e ∨ runtimeZone p h zone = .error e) (lift (runtimeZone p h zone) >>= fun _ => a) := by
  apply Raises.bind (Raises.lift fun e he => .inr he)
  intro _
  exact ha.mono fun _ he => .inl he

/-- The hardware answers for the interfaces as it did, the files can be looked up, and the listed zone is a file where
a link to it is made. -/
structure Unchanged (p : Product) (h now : Hardware) (c : Configuration) : Prop where
  indexed : ∀ n ∈ c.system.network, now.indexed n.interface = h.indexed n.interface
  node : ∀ n ∈ c.system.network, now.node n.interface = h.node n.interface
  present : ∀ n ∈ c.system.network, ∃ there, now.present n.interface = .ok there
  zone : p.runtimeEtcDirectory ≠ [] → now.zoneFile c.time.timezone = .ok true

theorem Unchanged.runtimeZone {now : Hardware} (hu : Unchanged p h now c) :
    Native.runtimeZone p now c.time.timezone = .ok () := by
  unfold Native.runtimeZone
  by_cases hetc : p.runtimeEtcDirectory.isEmpty = true
  · rw [if_pos hetc]
  · rw [if_neg hetc, hu.zone (by simpa using hetc)]
    rfl

theorem Unchanged.interfacePolicyOn {now : Hardware} (hu : Unchanged p h now c)
    {n : NetworkConfig} (hn : n ∈ c.system.network)
    (hok : interfacePolicyOn p h false n.interface = .ok ()) (boot : Bool) :
    Native.interfacePolicyOn p now boot n.interface = .ok () := by
  obtain ⟨policy, hpolicy, hidentity⟩ := interfacePolicyOn_ok hok
  have hnow : interfaceIdentity now policy n.interface = .ok () := by
    unfold interfaceIdentity at hidentity ⊢
    rw [hu.indexed n hn, hu.node n hn]
    exact hidentity
  unfold Native.interfacePolicyOn
  rw [hpolicy]
  cases boot with
  | false => exact hnow
  | true =>
    obtain ⟨there, hthere⟩ := hu.present n hn
    show (now.present n.interface >>= fun there => if there then interfaceIdentity now policy n.interface else .ok ()) = _
    rw [hthere]
    cases there with
    | true => exact hnow
    | false => rfl

/-- What was accepted passes the looks at hardware that has not changed. -/
theorem Unchanged.passes {now : Hardware} (hu : Unchanged p h now c) (hv : validateConfiguration p h c = .ok ()) :
    Native.runtimeZone p now c.time.timezone = .ok () ∧
      ∀ n ∈ c.system.network, ∀ boot, Native.interfacePolicyOn p now boot n.interface = .ok () := by
  refine ⟨hu.runtimeZone, ?_⟩
  intro n hn boot
  unfold validateConfiguration at hv
  rw [then_ok, then_ok, check_ok, then_ok] at hv
  exact hu.interfacePolicyOn hn (forM_ok.mp hv.2.2.1 n hn) boot

end Accepted

/-- The calls that apply an accepted configuration, at the boot or later, come to an end from any machine, and what they
raise is what one of their steps on the machine raised or the refusal of one of the two looks at the hardware. Where the
hardware has not changed neither of them refuses. -/
theorem accepted_applies (p : Product) (h : Hardware) (c : Configuration)
    (ht : ∀ template ∈ p.ptpUnitTemplates, (ascii "@.service").isSuffixOf template = true)
    (hv : validateConfiguration p h c = .ok ()) (faults : Faults) :
    (∀ now, Raises (fun e => Caused faults e ∨ runtimeZone p now c.time.timezone = .error e)
      (preferencesOn p now c faults)) ∧
    (∀ now bootstrap, Raises (fun e => Caused faults e ∨
      ∃ n ∈ c.system.network, ∃ i, interfacePolicyOn p (now i) bootstrap n.interface = .error e)
      (networkOn p now c.system.network bootstrap faults)) ∧
    (∀ now, Raises (fun e => Caused faults e ∨ runtimeZone p now c.time.timezone = .error e)
      (clockBootPolicyOn p now c.time faults)) ∧
    ∀ now, Unchanged p h now c → runtimeZone p now c.time.timezone = .ok () ∧
      ∀ n ∈ c.system.network, ∀ boot, interfacePolicyOn p now boot n.interface = .ok () := by
  have ha := validateConfiguration_applicable ht hv
  refine ⟨?_, networkOn_raises ha, ?_, fun now hu => hu.passes hv⟩
  · intro now
    exact behindZone_raises (preferences_onlyFaults ha) _
  · intro now
    exact behindZone_raises (clockBootPolicy_onlyFaults ha) _

theorem accepted_applies_ptp :
    validateConfiguration Fixture.product Fixture.hardware Fixture.accepted = .ok () ∧
      Raises (fun e => Caused (fun _ => .none) e ∨
        runtimeZone Fixture.product Fixture.hardware Fixture.accepted.time.timezone = .error e)
        (preferencesOn Fixture.product Fixture.hardware Fixture.accepted fun _ => .none) ∧
      runtimeZone Fixture.product Fixture.hardware Fixture.accepted.time.timezone = .ok () ∧
      interfacePolicyOn Fixture.product Fixture.hardware true (ascii "lan7") = .ok () := by
  have hv : validateConfiguration Fixture.product Fixture.hardware Fixture.accepted = .ok () := by decide
  have happly := accepted_applies _ _ _ (by decide) hv fun _ => .none
  have hunchanged : Unchanged Fixture.product Fixture.hardware Fixture.hardware Fixture.accepted :=
    ⟨fun _ _ => rfl, fun _ _ => rfl, fun _ _ => ⟨false, rfl⟩, fun _ => rfl⟩
  have hpass := happly.2.2.2 _ hunchanged
  exact ⟨hv, happly.1 _, hpass.1, hpass.2 _ (List.mem_cons_self ..) true⟩

end Monutchee.System.Native
