import Monutchee.Storage.Repeat
import Monutchee.Lib.Session

/-!
# Erasing the disk and restoring the backup (mnc-storage:182-187, 230-256, 398-439)

`reformat` is the only command that writes a partition table. It is followed question by question:
every command with its arguments and its input, every listing of the disks, every look at the
mounts, the holders and the users of a device is recorded in its order. The environment answers
each question as it likes, hands over the archive anew each time it is read, may let a question
fail, and may cut the run off at any of them. The last part is the `restore` of its own module.
-/

namespace Monutchee.Storage.Reformat
open Monutchee.Lib Monutchee.Lib.Files
open Monutchee.Storage.Boot (Error mountPath roleName digit item Devices check)
open Monutchee.Storage.Restore

/-! ### Questions -/

/-- A listing of lsblk with the sizes of its nodes; `int` may refuse one. -/
structure Listing where
  inventory : Boot.Inventory
  size : Text → Option ℤ

/-- What is recorded. A command is recorded with its output, or without one if it failed or was cut
off. -/
inductive Event where
  | archive (file : BackupFile)
  | command (args : List Text) (input : Option Text) (output : Option Text)
  | listing (listing : Listing)
  | ismount (path : Text) (mounted : Bool)
  | which (tool : Text) (found : Bool)
  | holders (device : Text) (names : Option (List Text))
  | fuser (device : Text) (code : ℤ)
  | block (path : Text) (there : Bool)
  | restore (file : BackupFile) (devices : Devices)

/-- What the environment says to one question. `garbage` is on the new partitions before they are
formatted, and on a partition whose format did not come to its end; `power` cuts off a restore. -/
structure Answer where
  crash : Bool
  fails : Bool
  stdout : Text
  yes : Bool
  listing : Listing
  file : BackupFile
  names : Option (List Text)
  code : ℤ
  garbage : Role → Disk
  selinux : Bool
  copier : Copier
  power : Option ℕ

/-- The partitions of the roles and what is mounted at their places, the last one first. -/
structure World where
  disk : Role → Disk
  mounts : Role → List Text

abbrev Machine := Session Answer Event World

abbrev Prog := Act Machine Error

/-- How a command changes the world, by whether it succeeded. -/
abbrev Effect := Answer → Bool → World → World

def noEffect : Effect := fun _ _ w => w

def runWith (effect : Effect) (args : List Text) (input : Option Text) : Prog Text :=
  Session.ask fun a w =>
    if a.crash then ⟨[.command args input none], effect a false w, .crash⟩
    else if a.fails then ⟨[.command args input none], effect a false w, .raise .other⟩
    else ⟨[.command args input (some a.stdout)], effect a true w, .ret a.stdout⟩

/-- `run(*args)` -/
def run (args : List Text) : Prog Text := runWith noEffect args none

/-- A question that is answered is recorded with its answer. -/
def look {α : Type} (event : Answer → World → Event) (value : Answer → World → α) : Prog α :=
  Session.ask fun a w =>
    if a.crash then ⟨[], w, .crash⟩
    else if a.fails then ⟨[], w, .raise .other⟩
    else ⟨[event a w], w, .ret (value a w)⟩

def inventory : Prog Listing := look (fun a _ => .listing a.listing) fun a _ => a.listing

/-- `verify_archive(archive)` reads what is there now. -/
def verify (lib : Reader) : Prog (List (Text × Json)) := do
  let file ← look (fun a _ => .archive a.file) fun a _ => a.file
  Act.lift (verifyArchive lib file)

/-! ### The disk -/

def rootTypes : List Text := [text "rootfs", text "tmpfs", text "ramfs", text "squashfs"]

/-- Filesystems in memory. -/
def ramTypes : List Text := [text "tmpfs", text "ramfs", text "rootfs"]

def roleMounts : List Text := [text "/factory", text "/state", text "/data"]

/-- The loop of `disk_guard` over the disk and what is on it. -/
def guardNode (n : Boot.Node) : Except Error Unit := do
  Boot.require (n.type ∈ [text "disk", text "part"]) (text "target has a device-mapper/RAID consumer")
  Boot.require (n.mountpoints.all fun m => m.all fun path => path.isEmpty || path ∈ roleMounts)
    (text "target contains a boot, swap, bind or unrelated mount")

/-- `sum(size_mib) + 128`, in bytes -/
def needed (p : Boot.Policy) : ℤ := ((roles.map fun role => (p.role role).sizeMib).sum + 128) * 1024 * 1024

/-- `disk_guard` (mnc-storage:230-243) -/
def diskGuard (p : Boot.Policy) (disk : Text) (l : Listing) (rootType : Text) : Except Error Boot.Node := do
  Boot.require (disk == p.disk) (text "explicit disk does not match policy")
  Boot.require (rootType ∈ rootTypes) (text "repartition requires a RAM/JTAG recovery boot")
  match l.inventory.disks.filter fun n => n.name == disk && n.type == text "disk" with
  | [d] =>
    match l.size d.name with
    | none => .error .other
    | some size => do
      Boot.require (needed p ≤ size) (text "target disk is too small")
      d.descendants.forM guardNode
      return d
  | _ => Boot.raise (text "target is not one whole disk")

/-- `'size=%dMiB, '`, for a size that is not 0 -/
def sizeText (size : ℕ) : Text := if size = 0 then [] else text "size=" ++ text (toString size) ++ text "MiB, "

def partitionLine (p : Boot.Policy) (role : Role) : Text :=
  sizeText (p.role role).sizeMib ++ text "type=L, name=\"" ++ p.label role ++ text "\""

/-- `partition_script` (mnc-storage:246-252), which `layout` prints. -/
def partitionScript (p : Boot.Policy) : Text :=
  [10].intercalate ([text "label: gpt", text "unit: sectors", []] ++ roles.map (partitionLine p)) ++ [10]

/-- The place of a role in ROLES, from 1. -/
def index : Role → ℕ
  | .factory => 1
  | .state => 2
  | .data => 3

/-- `partition_path` (mnc-storage:255-256) -/
def partitionPath (disk : Text) (index : ℕ) : Text :=
  disk ++ (if disk.getLast?.any digit then text "p" else []) ++ text (toString index)

def sfdisk (disk : Text) : List Text :=
  [text "sfdisk", text "--wipe", text "always", text "--wipe-partitions", text "always", disk]

def mkfs (p : Boot.Policy) (role : Role) (path : Text) : List Text :=
  [text "mkfs.ext4", text "-F", text "-L", p.label role, path]

/-- A new ext4 file system. -/
def fresh : Disk := Tree.empty.add [text "lost+found"] (.stored .directory)

/-! ### quiesce -/

def stop (unit : Text) : List Text := [text "systemctl", text "stop", unit]

def activeState (unit : Text) : List Text :=
  [text "systemctl", text "show", text "--property=ActiveState", text "--value", unit]

def stopUnit (unit : Text) : Prog Unit := do
  let _ ← run (stop unit)
  pure ()

def checkStopped (unit : Text) : Prog Unit := do
  let state ← run (activeState unit)
  check (state ∈ [text "inactive", text "failed"]) (text "service still active: " ++ unit)

/-- `quiesce` (mnc-storage:182-187) -/
def quiesce (units : List Text) : Prog Unit := do
  Act.each stopUnit units
  Act.each checkStopped units

/-! ### reformat -/

/-- The arguments of the command, and the units that the policy stops. -/
structure Request where
  disk : Text
  archive : Text
  confirmation : Text
  units : List Text

def rootFilesystem : List Text := [text "findmnt", text "-n", text "-o", text "FSTYPE", text "/"]

def rootSource : List Text := [text "findmnt", text "-n", text "-o", text "SOURCE", text "/"]

def backingFile (device : Text) : List Text :=
  [text "losetup", text "-n", text "-O", text "BACK-FILE", device]

def filesystemOf (path : Text) : List Text :=
  [text "findmnt", text "-n", text "-o", text "FSTYPE", text "-T", path]

/-- A SquashFS is read from a file, which must not lie on the disk. -/
def checkBacking (rootType : Text) : Prog Unit :=
  if rootType = text "squashfs" then do
    let device ← run rootSource
    let backing ← run (backingFile device)
    let type ← run (filesystemOf backing)
    check (type ∈ ramTypes) (text "SquashFS backing file is not RAM-resident")
  else pure ()

def tools : List Text := [text "sfdisk", text "mkfs.ext4", text "udevadm", text "fuser"]

def findTool (tool : Text) : Prog Unit := do
  let found ← look (fun a _ => .which tool a.yes) fun a _ => a.yes
  check found (text "missing required tool: " ++ tool)

/-- The checks before the services are stopped (mnc-storage:399-413). -/
def admission (lib : Reader) (p : Boot.Policy) (req : Request) : Prog Text := do
  let manifest ← verify lib
  let theirs ← Act.lift (item manifest (text "target"))
  let ours ← Act.lift (match p.target with
    | some t => .ok t
    | none => .error .other)
  check (equal theirs ours) (text "backup target mismatch")
  check (req.confirmation == text "ERASE:" ++ req.disk) (text "requires --confirm ERASE:" ++ req.disk)
  let rootType ← run rootFilesystem
  let listing ← inventory
  let _ ← Act.lift (diskGuard p req.disk listing rootType)
  checkBacking rootType
  let type ← run (filesystemOf req.archive)
  check (type ∈ ramTypes) (text "use a verified RAM backup; also copy it off-device to survive power loss")
  Act.each findTool tools
  pure rootType

def umount (role : Role) : List Text := [text "umount", mountPath role]

def popMount (role : Role) : Effect := fun _ ok w =>
  if ok then { w with mounts := Function.update w.mounts role (w.mounts role).tail } else w

def release (role : Role) : Prog Unit := do
  let mounted ← look (fun _ w => .ismount (mountPath role) (!(w.mounts role).isEmpty)) fun _ w => !(w.mounts role).isEmpty
  if mounted then do
    let _ ← runWith (popMount role) (umount role) none
    pure ()
  else pure ()

def relinquish : List Text := [text "journalctl", text "--relinquish-var"]

/-- Nothing may use the disk any more (mnc-storage:414-420). -/
def releaseAll (units : List Text) : Prog Unit := do
  quiesce units
  let _ ← run relinquish
  Act.each release roles.reverse

def checkIdle (n : Boot.Node) : Prog Unit := do
  check (!n.mounted) (text "target is still mounted")
  let names ← look (fun a _ => .holders n.name a.names) fun a _ => a.names
  check (names == some []) (text "target has active block holders")
  let code ← look (fun a _ => .fuser n.name a.code) fun a _ => a.code
  check (code == 1) (text "target is busy or fuser could not check it")

/-- The checks right before the first write (mnc-storage:421-429). -/
def inspect (lib : Reader) (p : Boot.Policy) (req : Request) (rootType : Text) : Prog Unit := do
  let listing ← inventory
  let d ← Act.lift (diskGuard p req.disk listing rootType)
  Act.each checkIdle d.descendants
  let _ ← verify lib
  pure ()

def spoil (role : Role) : Effect := fun a ok w =>
  { w with disk := Function.update w.disk role (if ok then fresh else a.garbage role) }

/-- One round of the loop that formats. -/
def format (p : Boot.Policy) (req : Request) (role : Role) : Prog Unit := do
  let path := partitionPath req.disk (index role)
  let there ← look (fun a _ => .block path a.yes) fun a _ => a.yes
  check there (text "new partition is missing: " ++ path)
  let _ ← runWith (spoil role) (mkfs p role path) none
  pure ()

def settled : List Text := [text "udevadm", text "settle", text "--timeout=15"]

def partitions (disk : Text) : Devices := fun role => some (partitionPath disk (index role))

/-- The new partition table and the new file systems (mnc-storage:430-438). -/
def erase (p : Boot.Policy) (req : Request) : Prog Unit := do
  let _ ← runWith (fun a _ w => { w with disk := a.garbage }) (sfdisk req.disk) (some (partitionScript p))
  let _ ← run settled
  Act.each (format p req) roles
  let _ ← run [text "sync"]
  pure ()

/-- `restore` reads the archive and lists the disks once more. -/
def restoreFrom (lib : Reader) (p : Boot.Policy) (devices : Devices) : Prog Unit :=
  Session.ask fun a w =>
    let done := Restore.restore lib p a.file ⟨devices, a.listing.inventory, a.selinux, a.copier⟩
      ⟨w.disk, w.mounts, a.power⟩
    ⟨[.restore a.file devices], ⟨done.2.disk, done.2.mounts⟩, done.1⟩

/-- `reformat` (mnc-storage:398-439) -/
def reformat (lib : Reader) (p : Boot.Policy) (req : Request) : Prog Unit := do
  let rootType ← admission lib p req
  releaseAll req.units
  inspect lib p req rootType
  erase p req
  restoreFrom lib p (partitions req.disk)

/-! ### What must have been recorded before a write -/

def destroyers : List Text := [text "sfdisk", text "mkfs.ext4"]

def Event.destroys : Event → Bool
  | .command args _ _ => args.head?.any (· ∈ destroyers)
  | .restore .. => true
  | _ => false

/-- A command that succeeded. -/
def output (args : List Text) (out : Text) : Event := .command args none (some out)

/-- A verified backup of this target, the confirmation, a system in memory with the archive in
memory, and the tools. -/
structure Admitted (lib : Reader) (p : Boot.Policy) (req : Request) (rootType : Text) (l : List Event) : Prop where
  verified : ∃ file manifest, .archive file ∈ l ∧ verifyArchive lib file = .ok manifest ∧ SameTarget manifest p
  confirmed : req.confirmation = text "ERASE:" ++ req.disk
  root : output rootFilesystem rootType ∈ l
  backing : rootType = text "squashfs" → ∃ device path type, output rootSource device ∈ l ∧
    output (backingFile device) path ∈ l ∧ output (filesystemOf path) type ∈ l ∧ type ∈ ramTypes
  archive : ∃ type ∈ ramTypes, output (filesystemOf req.archive) type ∈ l
  tools : ∀ tool ∈ tools, .which tool true ∈ l

def Stopped (unit : Text) (log : List Event) : Prop := ∃ out, log = [output (stop unit) out]

def SeenStopped (unit : Text) (log : List Event) : Prop :=
  ∃ state ∈ [text "inactive", text "failed"], log = [output (activeState unit) state]

def Detached (role : Role) (log : List Event) : Prop :=
  log = [.ismount (mountPath role) false] ∨
    ∃ out, log = [.ismount (mountPath role) true, output (umount role) out]

/-- All units are stopped and then seen to be stopped, the journal is given up, and the roles are
unmounted, the last one first. -/
def Released (units : List Text) (l : List Event) : Prop :=
  ∃ stops shows out unmounts, l = stops.flatten ++ shows.flatten ++ output relinquish out :: unmounts.flatten ∧
    List.Forall₂ Stopped units stops ∧ List.Forall₂ SeenStopped units shows ∧
    List.Forall₂ Detached roles.reverse unmounts

def Idle (n : Boot.Node) (log : List Event) : Prop :=
  n.mounted = false ∧ log = [.holders n.name (some []), .fuser n.name 1]

/-- The last listing before the write admits the disk, nothing on the disk is in use, and the last
thing is the archive, verified once more. -/
def Inspected (lib : Reader) (p : Boot.Policy) (req : Request) (rootType : Text) (l : List Event) : Prop :=
  ∃ listing d idle file manifest, l = .listing listing :: idle.flatten ++ [.archive file] ∧
    diskGuard p req.disk listing rootType = .ok d ∧ List.Forall₂ Idle d.descendants idle ∧
    verifyArchive lib file = .ok manifest

/-- All that is recorded before the partition table is written. -/
def Cleared (lib : Reader) (p : Boot.Policy) (req : Request) (before : List Event) : Prop :=
  ∃ rootType a b c, before = a ++ b ++ c ∧ Admitted lib p req rootType a ∧ Released req.units b ∧
    Inspected lib p req rootType c ∧ ∀ e ∈ before, e.destroys = false

def Formatted (p : Boot.Policy) (disk : Text) (role : Role) (log : List Event) : Prop :=
  ∃ out, log = [.block (partitionPath disk (index role)) true,
    output (mkfs p role (partitionPath disk (index role))) out]

/-- The table is written and the partitions of `done` are formatted. -/
def Written (p : Boot.Policy) (disk : Text) (done : List Role) (l : List Event) : Prop :=
  ∃ out out' logs, l = .command (sfdisk disk) (some (partitionScript p)) (some out) :: output settled out' ::
    logs.flatten ∧ List.Forall₂ (Formatted p disk) done logs

/-- What a destructive event needs: the table is written once, after all checks, a partition is
formatted after the table and the partitions before it, and the backup comes last. -/
def licence (lib : Reader) (p : Boot.Policy) (req : Request) (before : List Event) : Event → Prop
  | .command args input _ =>
    (args.head? = some (text "sfdisk") →
      args = sfdisk req.disk ∧ input = some (partitionScript p) ∧ Cleared lib p req before) ∧
    (args.head? = some (text "mkfs.ext4") → ∃ done role rest cleared written,
      roles = done ++ role :: rest ∧ args = mkfs p role (partitionPath req.disk (index role)) ∧
      before = cleared ++ written ++ [.block (partitionPath req.disk (index role)) true] ∧
      Cleared lib p req cleared ∧ Written p req.disk done written)
  | .restore _ devices => devices = partitions req.disk ∧ ∃ cleared written out,
      before = cleared ++ written ++ [output [text "sync"] out] ∧ Cleared lib p req cleared ∧
      Written p req.disk roles written
  | _ => True

theorem licence_of_harmless {lib : Reader} {p : Boot.Policy} {req : Request} {before : List Event} {e : Event}
    (h : e.destroys = false) : licence lib p req before e := by
  cases e with
  | command args input out =>
    have hnot : ∀ tool ∈ destroyers, args.head? ≠ some tool := by
      intro tool htool hhead
      simp only [Event.destroys, hhead, Option.any_some, decide_eq_false_iff_not] at h
      exact h htool
    constructor
    · intro hhead
      exact absurd hhead (hnot _ (by simp [destroyers]))
    · intro hhead
      exact absurd hhead (hnot _ (by simp [destroyers]))
  | restore file devices => simp [Event.destroys] at h
  | _ => trivial

/-! ### Questions that destroy nothing -/

/-- Nothing was written, and the partitions hold what they held. -/
structure Calm (answers : ℕ → Answer) (disk : Role → Disk) (s : Machine) : Prop where
  harmless : ∀ e ∈ s.record, e.destroys = false
  kept : s.world.disk = disk
  told : s.answers = answers

section Calm

variable {answers : ℕ → Answer} {disk : Role → Disk} {s : Machine} {lib : Reader} {p : Boot.Policy} {req : Request}

theorem Calm.moved (hs : Calm answers disk s) {events : List Event} {w : World}
    (hevents : ∀ e ∈ events, e.destroys = false) (hw : w.disk = s.world.disk) : Calm answers disk (s.moved events w) := by
  constructor
  · intro e he
    rcases List.mem_append.mp he with he | he
    · exact hs.harmless e he
    · exact hevents e he
  · exact hw.trans hs.kept
  · exact hs.told

/-- A command that is none of the two. -/
theorem runWith_calm {effect : Effect} {args : List Text} {input : Option Text} (hs : Calm answers disk s)
    (hargs : ∀ out, (Event.command args input out).destroys = false)
    (heffect : ∀ a ok w, (effect a ok w).disk = w.disk) :
    Act.Upholds (Calm answers disk) (runWith effect args input) s fun out s' =>
      s'.record = s.record ++ [.command args input (some out)] := by
  unfold runWith
  apply Session.upholds_ask
  · split
    · exact hs.moved (by simpa using hargs none) (heffect ..)
    · split
      · exact hs.moved (by simpa using hargs none) (heffect ..)
      · exact hs.moved (by simpa using hargs _) (heffect ..)
  · intro out hout
    split at hout
    · cases hout
    · split at hout
      · cases hout
      · rename_i hcrash hfails
        cases hout
        simp [hcrash, hfails]

theorem run_calm {args : List Text} (hs : Calm answers disk s)
    (hargs : ∀ out, (Event.command args none out).destroys = false) :
    Act.Upholds (Calm answers disk) (run args) s fun out s' => s'.record = s.record ++ [output args out] :=
  runWith_calm hs hargs fun _ _ _ => rfl

theorem look_calm {α : Type} {event : Answer → World → Event} {value : Answer → World → α} (hs : Calm answers disk s)
    (hevent : ∀ a w, (event a w).destroys = false) :
    Act.Upholds (Calm answers disk) (look event value) s fun v s' =>
      ∃ a w, v = value a w ∧ s'.record = s.record ++ [event a w] := by
  unfold look
  apply Session.upholds_ask
  · split
    · exact hs.moved (by simp) rfl
    · split
      · exact hs.moved (by simp) rfl
      · exact hs.moved (by simpa using hevent _ _) rfl
  · intro v hv
    split at hv
    · cases hv
    · split at hv
      · cases hv
      · rename_i hcrash hfails
        cases hv
        exact ⟨s.next, s.world, rfl, by simp [hcrash, hfails]⟩

theorem verify_calm (hs : Calm answers disk s) :
    Act.Upholds (Calm answers disk) (verify lib) s fun manifest s' =>
      ∃ file, s'.record = s.record ++ [.archive file] ∧ verifyArchive lib file = .ok manifest := by
  unfold verify
  apply Act.Upholds.bind (look_calm hs fun _ _ => rfl)
  intro file s₁ hs₁ hread
  obtain ⟨a, w, rfl, hrecord⟩ := hread
  apply Act.Upholds.lift hs₁
  intro manifest hm
  exact ⟨a.file, hrecord, hm⟩

theorem findTool_calm (tool : Text) (hs : Calm answers disk s) :
    Act.Upholds (Calm answers disk) (findTool tool) s fun _ s' => ∃ l, s'.record = s.record ++ l ∧ l = [.which tool true] := by
  unfold findTool
  apply Act.Upholds.bind (look_calm hs fun _ _ => rfl)
  intro found s₁ hs₁ hlook
  obtain ⟨a, w, rfl, hrecord⟩ := hlook
  apply Act.Upholds.require hs₁
  intro hfound
  exact ⟨_, hrecord, by rw [hfound]⟩

theorem checkBacking_calm (rootType : Text) (hs : Calm answers disk s) :
    Act.Upholds (Calm answers disk) (checkBacking rootType) s fun _ s' => ∃ l, s'.record = s.record ++ l ∧
      (rootType = text "squashfs" → ∃ device path type, output rootSource device ∈ l ∧
        output (backingFile device) path ∈ l ∧ output (filesystemOf path) type ∈ l ∧ type ∈ ramTypes) := by
  unfold checkBacking
  by_cases h : rootType = text "squashfs"
  · rw [if_pos h]
    apply Act.Upholds.bind (run_calm hs fun _ => rfl)
    intro device s₁ hs₁ hdevice
    apply Act.Upholds.bind (run_calm hs₁ fun _ => rfl)
    intro path s₂ hs₂ hpath
    apply Act.Upholds.bind (run_calm hs₂ fun _ => rfl)
    intro type s₃ hs₃ htype
    apply Act.Upholds.require hs₃
    intro hram
    refine ⟨[output rootSource device, output (backingFile device) path, output (filesystemOf path) type], ?_, ?_⟩
    · rw [htype, hpath, hdevice]
      simp
    · intro _
      exact ⟨device, path, type, by simp, by simp, by simp, of_decide_eq_true hram⟩
  · rw [if_neg h]
    exact Act.Upholds.pure hs ⟨[], by simp, fun hsquash => absurd hsquash h⟩

theorem SameTarget.of_checks {manifest : List (Text × Json)} {theirs ours : Json}
    (htheirs : item manifest (text "target") = .ok theirs)
    (hours : (match p.target with
      | some t => .ok t
      | none => .error .other : Except Error Json) = .ok ours) (h : equal theirs ours = true) :
    SameTarget manifest p := by
  refine ⟨theirs, ours, ?_, ?_, h⟩
  · unfold item at htheirs
    split at htheirs
    · rename_i v hv
      cases htheirs
      exact hv
    · cases htheirs
  · split at hours
    · rename_i t ht
      cases hours
      exact ht
    · cases hours

theorem admission_calm (hs : Calm answers disk s) :
    Act.Upholds (Calm answers disk) (admission lib p req) s fun rootType s' =>
      ∃ l, s'.record = s.record ++ l ∧ Admitted lib p req rootType l := by
  unfold admission
  apply Act.Upholds.bind (verify_calm hs)
  intro manifest s₁ hs₁ hverify
  obtain ⟨file, hfile, hmanifest⟩ := hverify
  apply Act.Upholds.lift_bind hs₁
  intro theirs htheirs
  apply Act.Upholds.lift_bind hs₁
  intro ours hours
  apply Act.Upholds.require_bind hs₁
  intro hequal
  apply Act.Upholds.require_bind hs₁
  intro hconfirm
  apply Act.Upholds.bind (run_calm hs₁ fun _ => rfl)
  intro rootType s₂ hs₂ hroot
  apply Act.Upholds.bind (look_calm hs₂ fun _ _ => rfl)
  intro listing s₃ hs₃ hlisting
  obtain ⟨a, w, rfl, hlisting⟩ := hlisting
  apply Act.Upholds.lift_bind hs₃
  intro d _
  apply Act.Upholds.bind (checkBacking_calm rootType hs₃)
  intro _ s₄ hs₄ hbacking
  obtain ⟨b, hb, hbacking⟩ := hbacking
  apply Act.Upholds.bind (run_calm hs₄ fun _ => rfl)
  intro type s₅ hs₅ harchive
  apply Act.Upholds.require_bind hs₅
  intro hram
  apply Act.Upholds.bind (Session.upholds_each (R := fun tool l => l = [Event.which tool true]) hs₅
    fun tool _ s hs => findTool_calm tool hs)
  intro _ s₆ hs₆ htools
  obtain ⟨logs, hlogs, htools⟩ := htools
  apply Act.Upholds.pure hs₆
  refine ⟨[.archive file, output rootFilesystem rootType, .listing a.listing] ++ b ++
    [output (filesystemOf req.archive) type] ++ logs.flatten, ?_, ?_⟩
  · rw [hlogs, harchive, hb, hlisting, hroot, hfile]
    simp
  · refine ⟨⟨file, manifest, by simp, hmanifest, SameTarget.of_checks htheirs hours hequal⟩, by simpa using hconfirm,
      by simp, ?_, ⟨type, of_decide_eq_true hram, by simp⟩, ?_⟩
    · intro hsquash
      obtain ⟨device, path, type', hdevice, hpath, htype, hmem⟩ := hbacking hsquash
      exact ⟨device, path, type', by simp [hdevice], by simp [hpath], by simp [htype], hmem⟩
    · intro tool htool
      obtain ⟨log, hlog, rfl⟩ := Session.exists_log htools htool
      exact List.mem_append_right _ (List.mem_flatten.mpr ⟨_, hlog, List.mem_singleton_self _⟩)

theorem quiesce_calm (units : List Text) (hs : Calm answers disk s) :
    Act.Upholds (Calm answers disk) (quiesce units) s fun _ s' => ∃ stops shows : List (List Event),
      s'.record = s.record ++ (stops.flatten ++ shows.flatten) ∧ List.Forall₂ Stopped units stops ∧
      List.Forall₂ SeenStopped units shows := by
  have hstop : ∀ unit ∈ units, ∀ s, Calm answers disk s → Act.Upholds (Calm answers disk) (stopUnit unit) s fun _ s' =>
      ∃ l, s'.record = s.record ++ l ∧ Stopped unit l := by
    intro unit _ s hs
    apply Act.Upholds.bind (run_calm hs fun _ => rfl)
    intro out s₁ hs₁ hout
    exact Act.Upholds.pure hs₁ ⟨_, hout, out, rfl⟩
  have hshow : ∀ unit ∈ units, ∀ s, Calm answers disk s → Act.Upholds (Calm answers disk) (checkStopped unit) s fun _ s' =>
      ∃ l, s'.record = s.record ++ l ∧ SeenStopped unit l := by
    intro unit _ s hs
    apply Act.Upholds.bind (run_calm hs fun _ => rfl)
    intro state s₁ hs₁ hstate
    apply Act.Upholds.require hs₁
    intro hmem
    exact ⟨_, hstate, state, of_decide_eq_true hmem, rfl⟩
  unfold quiesce
  apply Act.Upholds.bind (Session.upholds_each hs hstop)
  intro _ s₁ hs₁ hstops
  obtain ⟨stops, hrecord, hstops⟩ := hstops
  apply (Session.upholds_each hs₁ hshow).mono
  intro _ s₂ _ hshows
  obtain ⟨shows, hrecord', hshows⟩ := hshows
  exact ⟨stops, shows, by rw [hrecord', hrecord, List.append_assoc], hstops, hshows⟩

theorem release_calm (role : Role) (hs : Calm answers disk s) :
    Act.Upholds (Calm answers disk) (release role) s fun _ s' => ∃ l, s'.record = s.record ++ l ∧ Detached role l := by
  have humount : ∀ out, (Event.command (umount role) none out).destroys = false := by
    intro out
    simp [Event.destroys, umount, destroyers, text]
  unfold release look
  apply Act.Upholds.bind (look_calm hs fun _ _ => rfl)
  intro mounted s₁ hs₁ hlook
  obtain ⟨a, w, hmounted, hrecord⟩ := hlook
  cases mounted with
  | true =>
    rw [if_pos rfl]
    apply Act.Upholds.bind (runWith_calm hs₁ humount fun _ ok w => by cases ok <;> rfl)
    intro out s₂ hs₂ hout
    apply Act.Upholds.pure hs₂
    refine ⟨[.ismount (mountPath role) true, output (umount role) out], ?_, .inr ⟨out, rfl⟩⟩
    rw [hout, hrecord, ← hmounted, List.append_assoc]
    rfl
  | false =>
    exact Act.Upholds.pure hs₁ ⟨_, hrecord, .inl (by rw [← hmounted])⟩

theorem releaseAll_calm (units : List Text) (hs : Calm answers disk s) :
    Act.Upholds (Calm answers disk) (releaseAll units) s fun _ s' =>
      ∃ l, s'.record = s.record ++ l ∧ Released units l := by
  unfold releaseAll
  apply Act.Upholds.bind (quiesce_calm units hs)
  intro _ s₁ hs₁ hquiet
  obtain ⟨stops, shows, hrecord, hstops, hshows⟩ := hquiet
  apply Act.Upholds.bind (run_calm hs₁ fun _ => rfl)
  intro out s₂ hs₂ hout
  apply (Session.upholds_each hs₂ fun role _ s hs => release_calm role hs).mono
  intro _ s₃ _ hunmounts
  obtain ⟨unmounts, hrecord', hunmounts⟩ := hunmounts
  refine ⟨stops.flatten ++ shows.flatten ++ output relinquish out :: unmounts.flatten, ?_,
    stops, shows, out, unmounts, rfl, hstops, hshows, hunmounts⟩
  rw [hrecord', hout, hrecord]
  simp

theorem checkIdle_calm (n : Boot.Node) (hs : Calm answers disk s) :
    Act.Upholds (Calm answers disk) (checkIdle n) s fun _ s' => ∃ l, s'.record = s.record ++ l ∧ Idle n l := by
  unfold checkIdle
  apply Act.Upholds.require_bind hs
  intro hmounted
  apply Act.Upholds.bind (look_calm hs fun _ _ => rfl)
  intro names s₁ hs₁ hnames
  obtain ⟨a, w, rfl, hnames⟩ := hnames
  apply Act.Upholds.require_bind hs₁
  intro hempty
  apply Act.Upholds.bind (look_calm hs₁ fun _ _ => rfl)
  intro code s₂ hs₂ hcode
  obtain ⟨b, w', rfl, hcode⟩ := hcode
  apply Act.Upholds.require hs₂
  intro hone
  refine ⟨[.holders n.name a.names, .fuser n.name b.code], ?_, by simpa using hmounted, ?_⟩
  · rw [hcode, hnames, List.append_assoc]
    rfl
  · rw [eq_of_beq hempty, eq_of_beq hone]

theorem inspect_calm (rootType : Text) (hs : Calm answers disk s) :
    Act.Upholds (Calm answers disk) (inspect lib p req rootType) s fun _ s' =>
      ∃ l, s'.record = s.record ++ l ∧ Inspected lib p req rootType l := by
  unfold inspect
  apply Act.Upholds.bind (look_calm hs fun _ _ => rfl)
  intro listing s₁ hs₁ hlisting
  obtain ⟨a, w, rfl, hlisting⟩ := hlisting
  apply Act.Upholds.lift_bind hs₁
  intro d hguard
  apply Act.Upholds.bind (Session.upholds_each hs₁ fun n _ s hs => checkIdle_calm n hs)
  intro _ s₂ hs₂ hidle
  obtain ⟨idle, hrecord, hidle⟩ := hidle
  apply Act.Upholds.bind (verify_calm hs₂)
  intro manifest s₃ hs₃ hverify
  obtain ⟨file, hfile, hmanifest⟩ := hverify
  apply Act.Upholds.pure hs₃
  refine ⟨.listing a.listing :: idle.flatten ++ [.archive file], ?_, a.listing, d, idle, file, manifest, rfl,
    hguard, hidle, hmanifest⟩
  rw [hfile, hrecord, hlisting]
  simp

end Calm

/-! ### Writing -/

/-- The record is licensed, and the partitions hold what they held unless something was written. -/
structure Safe (lib : Reader) (p : Boot.Policy) (req : Request) (answers : ℕ → Answer) (disk : Role → Disk)
    (s : Machine) : Prop where
  licensed : Session.Licensed (licence lib p req) s.record
  spared : (∀ e ∈ s.record, e.destroys = false) → s.world.disk = disk
  told : s.answers = answers

theorem Calm.safe {lib : Reader} {p : Boot.Policy} {req : Request} {answers : ℕ → Answer} {disk : Role → Disk} {s : Machine}
    (hs : Calm answers disk s) : Safe lib p req answers disk s := by
  constructor
  · have hfree := Session.licensed_nil.append_free (L := licence lib p req) (m := s.record)
      fun e he before => licence_of_harmless (hs.harmless e he)
    rwa [List.nil_append] at hfree
  · intro _
    exact hs.kept
  · exact hs.told

section Writing

variable {lib : Reader} {p : Boot.Policy} {req : Request} {answers : ℕ → Answer} {disk : Role → Disk} {s : Machine}

/-- Once something was written the partitions are no longer promised. -/
def Begun (s : Machine) : Prop := ∃ e ∈ s.record, e.destroys = true

theorem Safe.moved_begun (hs : Safe lib p req answers disk s) {e : Event} {w : World}
    (he : licence lib p req s.record e) (hbegun : e.destroys = true ∨ Begun s) :
    Safe lib p req answers disk (s.moved [e] w) := by
  constructor
  · exact hs.licensed.snoc he
  · intro hall
    exfalso
    rcases hbegun with hdestroys | ⟨x, hx, hdestroys⟩
    · have hquiet := hall e (by simp)
      rw [hdestroys] at hquiet
      cases hquiet
    · have hquiet := hall x (List.mem_append_left _ hx)
      rw [hdestroys] at hquiet
      cases hquiet
  · exact hs.told

theorem Safe.moved_none (hs : Safe lib p req answers disk s) (hbegun : Begun s) {w : World} :
    Safe lib p req answers disk (s.moved [] w) := by
  obtain ⟨x, hx, hdestroys⟩ := hbegun
  constructor
  · simpa using hs.licensed
  · intro hall
    have hquiet := hall x (by simpa using hx)
    rw [hdestroys] at hquiet
    cases hquiet
  · exact hs.told

/-- A licensed command; its effect is known if it succeeds. -/
theorem runWith_safe {effect : Effect} {args : List Text} {input : Option Text} (hs : Safe lib p req answers disk s)
    (hlicence : ∀ out, licence lib p req s.record (.command args input out))
    (hbegun : (∀ out, (Event.command args input out).destroys = true) ∨ Begun s) :
    Act.Upholds (Safe lib p req answers disk) (runWith effect args input) s fun out s' =>
      s'.record = s.record ++ [.command args input (some out)] ∧ ∃ a, s'.world = effect a true s.world := by
  have hboth : ∀ out, (Event.command args input out).destroys = true ∨ Begun s := by
    intro out
    rcases hbegun with h | h
    · exact .inl (h out)
    · exact .inr h
  unfold runWith
  apply Session.upholds_ask
  · split
    · exact hs.moved_begun (hlicence none) (hboth none)
    · split
      · exact hs.moved_begun (hlicence none) (hboth none)
      · exact hs.moved_begun (hlicence _) (hboth _)
  · intro out hout
    split at hout
    · cases hout
    · split at hout
      · cases hout
      · rename_i hcrash hfails
        cases hout
        simp only [hcrash, hfails]
        exact ⟨rfl, s.next, rfl⟩

theorem look_safe {α : Type} {event : Answer → World → Event} {value : Answer → World → α}
    (hs : Safe lib p req answers disk s) (hbegun : Begun s) (hevent : ∀ a w, (event a w).destroys = false) :
    Act.Upholds (Safe lib p req answers disk) (look event value) s fun v s' =>
      ∃ a w, v = value a w ∧ s'.record = s.record ++ [event a w] ∧ s'.world = s.world := by
  unfold look
  apply Session.upholds_ask
  · split
    · exact hs.moved_none hbegun
    · split
      · exact hs.moved_none hbegun
      · exact hs.moved_begun (licence_of_harmless (hevent _ _)) (.inr hbegun)
  · intro v hv
    split at hv
    · cases hv
    · split at hv
      · cases hv
      · rename_i hcrash hfails
        cases hv
        exact ⟨s.next, s.world, rfl, by simp [hcrash, hfails], by simp [hcrash, hfails]⟩

/-- What is on the partitions of `done`. -/
def Clean (done : List Role) (mounts : Role → List Text) (w : World) : Prop :=
  (∀ role ∈ done, w.disk role = fresh) ∧ w.mounts = mounts

/-- The rounds of `done` are over. -/
structure Round (lib : Reader) (p : Boot.Policy) (req : Request) (before : List Event)
    (mounts : Role → List Text) (done : List Role) (s : Machine) : Prop where
  cleared : Cleared lib p req before
  written : ∃ written, s.record = before ++ written ∧ Written p req.disk done written
  clean : Clean done mounts s.world

theorem Round.begun {before : List Event} {mounts : Role → List Text} {done : List Role}
    (h : Round lib p req before mounts done s) : Begun s := by
  obtain ⟨written, hrecord, out, out', logs, rfl, -⟩ := h.written
  refine ⟨.command (sfdisk req.disk) (some (partitionScript p)) (some out), ?_, ?_⟩
  · rw [hrecord]
    simp
  · simp [Event.destroys, sfdisk, destroyers]

theorem format_safe {before : List Event} {mounts : Role → List Text} {done rest : List Role} {role : Role}
    (hroles : roles = done ++ role :: rest) (hs : Safe lib p req answers disk s)
    (hround : Round lib p req before mounts done s) :
    Act.Upholds (Safe lib p req answers disk) (format p req role) s fun _ s' =>
      Round lib p req before mounts (done ++ [role]) s' := by
  obtain ⟨written, hrecord, hwritten⟩ := hround.written
  unfold format
  apply Act.Upholds.bind (look_safe hs hround.begun fun _ _ => rfl)
  intro there s₁ hs₁ hlook
  obtain ⟨a, w, rfl, hblock, hworld⟩ := hlook
  apply Act.Upholds.require_bind hs₁
  intro hthere
  rw [hthere] at hblock
  have hbegun : Begun s₁ := by
    obtain ⟨x, hx, hdestroys⟩ := hround.begun
    exact ⟨x, by rw [hblock]; exact List.mem_append_left _ hx, hdestroys⟩
  have hlicence : ∀ out, licence lib p req s₁.record
      (.command (mkfs p role (partitionPath req.disk (index role))) none out) := by
    intro out
    constructor
    · intro hhead
      simp [mkfs, text] at hhead
    · intro _
      exact ⟨done, role, rest, before, written, hroles, rfl, by rw [hblock, hrecord], hround.cleared, hwritten⟩
  apply Act.Upholds.bind (runWith_safe hs₁ hlicence (.inr hbegun))
  intro out s₂ hs₂ hmkfs
  obtain ⟨hmkfs, b, hworld'⟩ := hmkfs
  apply Act.Upholds.pure hs₂
  refine ⟨hround.cleared, ?_, ?_⟩
  · obtain ⟨first, second, logs, rfl, hlogs⟩ := hwritten
    refine ⟨_, by rw [hmkfs, hblock, hrecord, List.append_assoc, List.append_assoc], first, second,
      logs ++ [[.block (partitionPath req.disk (index role)) true,
        output (mkfs p role (partitionPath req.disk (index role))) out]], ?_, ?_⟩
    · simp [output]
    · exact List.rel_append hlogs (List.Forall₂.cons ⟨out, rfl⟩ List.Forall₂.nil)
  · obtain ⟨hclean, hmounts⟩ := hround.clean
    rw [hworld', hworld]
    constructor
    · intro r hr
      simp only [spoil, if_true]
      by_cases he : r = role
      · rw [he, Function.update_self]
      · rw [Function.update_of_ne he]
        rcases List.mem_append.mp hr with hr | hr
        · exact hclean r hr
        · exact absurd (List.mem_singleton.mp hr) he
    · exact hmounts

theorem Round.append {before : List Event} {mounts : Role → List Text} {done : List Role}
    (h : Round lib p req before mounts done s) {s' : Machine} {l : List Event} (hl : s'.record = s.record ++ l) :
    Begun s' := by
  obtain ⟨e, he, hdestroys⟩ := h.begun
  exact ⟨e, by rw [hl]; exact List.mem_append_left _ he, hdestroys⟩

/-- All partitions are new when the loop is over. -/
theorem erase_safe (hs : Safe lib p req answers disk s) (hcleared : Cleared lib p req s.record) :
    Act.Upholds (Safe lib p req answers disk) (erase p req) s fun _ s' =>
      (∃ written out, s'.record = s.record ++ written ++ [output [text "sync"] out] ∧
        Written p req.disk roles written) ∧ Clean roles s.world.mounts s'.world ∧ Begun s' := by
  have hlicence : ∀ out, licence lib p req s.record (.command (sfdisk req.disk) (some (partitionScript p)) out) := by
    intro out
    constructor
    · intro _
      exact ⟨rfl, rfl, hcleared⟩
    · intro hhead
      simp [sfdisk, text] at hhead
  have hdestroys : ∀ out, (Event.command (sfdisk req.disk) (some (partitionScript p)) out).destroys = true := by
    intro out
    simp [Event.destroys, sfdisk, destroyers]
  unfold erase
  apply Act.Upholds.bind (runWith_safe hs hlicence (.inl hdestroys))
  intro out s₁ hs₁ htable
  obtain ⟨htable, a, hworld⟩ := htable
  have hbegun : Begun s₁ := ⟨_, by rw [htable]; simp, hdestroys (some out)⟩
  apply Act.Upholds.bind (runWith_safe hs₁ (fun _ => licence_of_harmless (by simp [Event.destroys, settled, destroyers, text]))
    (.inr hbegun))
  intro out' s₂ hs₂ hsettle
  obtain ⟨hsettle, b, hworld'⟩ := hsettle
  have hround : Round lib p req s.record s.world.mounts [] s₂ := by
    refine ⟨hcleared, ?_, ?_⟩
    · refine ⟨_, by rw [hsettle, htable, List.append_assoc], out, out', [], ?_, List.Forall₂.nil⟩
      simp [output]
    · rw [hworld', hworld]
      exact ⟨by simp, rfl⟩
  apply Act.Upholds.bind (Act.Upholds.each_split (Round lib p req s.record s.world.mounts)
    (fun done role rest s hroles hs hround => format_safe hroles hs hround) (List.nil_append _).symm hs₂ hround)
  intro _ s₃ hs₃ hround'
  obtain ⟨written, hrecord, hwritten⟩ := hround'.written
  apply Act.Upholds.bind (runWith_safe hs₃ (fun _ => licence_of_harmless (by simp [Event.destroys, destroyers, text]))
    (.inr hround'.begun))
  intro out'' s₄ hs₄ hsync
  obtain ⟨hsync, c, hworld''⟩ := hsync
  apply Act.Upholds.pure hs₄
  refine ⟨⟨written, out'', by rw [hsync, hrecord]; rfl, hwritten⟩, ?_, hround'.append hsync⟩
  rw [hworld'']
  exact hround'.clean

/-- The restore that a run ended with, on new file systems. -/
def RestoredFresh (lib : Reader) (p : Boot.Policy) (req : Request) (answers : ℕ → Answer) (s : Machine) : Prop :=
  ∃ a ∈ Set.range answers, ∃ w w' : Restore.Machine, (∀ role, w.disk role = fresh) ∧
    Restore.restore lib p a.file ⟨partitions req.disk, a.listing.inventory, a.selinux, a.copier⟩ w = (.ret (), w') ∧
    s.world.disk = w'.disk ∧ ∃ before, s.record = before ++ [.restore a.file (partitions req.disk)]

theorem mem_roles (role : Role) : role ∈ roles := by
  cases role with
  | factory => simp [roles]
  | state => simp [roles]
  | data => simp [roles]

theorem restoreFrom_safe (hs : Safe lib p req answers disk s) (hbegun : Begun s) {mounts : Role → List Text}
    (hclean : Clean roles mounts s.world)
    (hlicence : ∀ file, licence lib p req s.record (.restore file (partitions req.disk))) :
    Act.Upholds (Safe lib p req answers disk) (restoreFrom lib p (partitions req.disk)) s fun _ s' =>
      RestoredFresh lib p req answers s' := by
  unfold restoreFrom
  apply Session.upholds_ask
  · exact hs.moved_begun (hlicence _) (.inr hbegun)
  · intro u hu
    have hnext : s.next ∈ Set.range answers := ⟨s.turn, by rw [Session.next, hs.told]⟩
    refine ⟨s.next, hnext, ⟨s.world.disk, s.world.mounts, s.next.power⟩, _, ?_, Prod.ext hu rfl, rfl, s.record, rfl⟩
    intro role
    exact hclean.1 role (mem_roles role)

end Writing

/-! ### A whole run -/

theorem reformat_upholds (lib : Reader) (p : Boot.Policy) (req : Request) (answers : ℕ → Answer) (world : World) :
    Act.Upholds (Safe lib p req answers world.disk) (reformat lib p req) (Session.opened answers world) fun _ s =>
      RestoredFresh lib p req answers s := by
  have hopened : Calm answers world.disk (Session.opened answers world : Machine) := ⟨by simp, rfl, rfl⟩
  have hprelude : Act.Upholds (Calm answers world.disk) (admission lib p req >>= fun rootType => releaseAll req.units >>= fun _ =>
      inspect lib p req rootType) (Session.opened answers world) fun _ s => Cleared lib p req s.record := by
    apply Act.Upholds.bind (admission_calm hopened)
    intro rootType s₁ hs₁ hadmitted
    obtain ⟨a, ha, hadmitted⟩ := hadmitted
    apply Act.Upholds.bind (releaseAll_calm req.units hs₁)
    intro _ s₂ hs₂ hreleased
    obtain ⟨b, hb, hreleased⟩ := hreleased
    apply (inspect_calm rootType hs₂).mono
    intro _ s₃ hs₃ hinspected
    obtain ⟨c, hc, hinspected⟩ := hinspected
    exact ⟨rootType, a, b, c, by rw [hc, hb, ha]; simp, hadmitted, hreleased, hinspected, hs₃.harmless⟩
  have hsplit : reformat lib p req = (admission lib p req >>= fun rootType => releaseAll req.units >>= fun _ =>
      inspect lib p req rootType) >>= fun _ => erase p req >>= fun _ => restoreFrom lib p (partitions req.disk) := by
    unfold reformat
    simp only [Act.bind_assoc]
  rw [hsplit]
  apply Act.Upholds.bind (hprelude.weaken fun s hs => hs.safe)
  intro _ s₁ hs₁ hcleared
  apply Act.Upholds.bind (erase_safe hs₁ hcleared.2)
  intro _ s₂ hs₂ herased
  obtain ⟨⟨written, out, hrecord, hwritten⟩, hclean, hbegun⟩ := herased
  apply restoreFrom_safe hs₂ hbegun hclean
  intro file
  exact ⟨rfl, s₁.record, written, out, hrecord, hcleared.2, hwritten⟩

/-- In every run, however it ends, nothing destructive is done without its licence, and as long as
nothing destructive was done the partitions hold what they held. -/
theorem reformat_safe (lib : Reader) (p : Boot.Policy) (req : Request) (answers : ℕ → Answer) (world : World) :
    Session.Licensed (licence lib p req) (reformat lib p req (Session.opened answers world)).2.record ∧
      ((∀ e ∈ (reformat lib p req (Session.opened answers world)).2.record, e.destroys = false) →
        (reformat lib p req (Session.opened answers world)).2.world.disk = world.disk) := by
  have hsafe := (reformat_upholds lib p req answers world).kept
  exact ⟨hsafe.licensed, hsafe.spared⟩

end Monutchee.Storage.Reformat
