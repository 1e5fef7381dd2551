import Monutchee.Lib.Session
import Monutchee.Storage.Mounting

/-!
# From the kernel to systemd (mnc-preboot, ram-init, mnc-selinux)

`mnc-preboot` is the first process, on a disk root or behind `ram-init` on the squashfs in memory. It
prepares the storage as a child process and hands over to systemd. On an image with SELinux it puts
the policy store of the image aside before, and binds it back over the writable /var/lib after. What
a mount shows is followed in a mount table; the environment may let any command fail and may end the
boot at any of them.
-/

namespace Monutchee.Storage.Preboot
open Monutchee.Lib
open Monutchee.Storage.Boot (roleName slashParts)
open Monutchee.Storage.Mounting

/-- What is written on the console, and what the storage preparation records. -/
inductive Line where
  | console (line : Text)
  | storage (event : Boot.Event)

/-- `yes` and `link` answer questions about files, `storage` is the environment of the storage process. -/
structure Answer where
  crash : Bool := false
  fails : Bool := false
  yes : Bool := false
  link : Bool := false
  storage : List Boot.Answer := []

/-- `shell` is the shell on the console that refuses the normal start. -/
inductive Stop where
  | failed
  | shell
  | exit (code : ℕ) (message : Text)
  deriving DecidableEq, Repr

abbrev Machine := Session Answer Line Table

abbrev Prog := Act Machine Stop

/-! ### Commands -/

def command (change : Table → Table) : Prog Unit :=
  Session.ask fun a t =>
    if a.crash then ⟨[], t, .crash⟩
    else if a.fails then ⟨[], t, .raise .failed⟩
    else ⟨[], change t, .ret ()⟩

def mount (args : List Text) : Prog Unit := command (mounting args)

/-- A command or an operation on files that mounts nothing. -/
def file : Prog Unit := command id

def tell {α : Type} (f : Answer → Table → α) : Prog α :=
  Session.ask fun a t =>
    if a.crash then ⟨[], t, .crash⟩
    else if a.fails then ⟨[], t, .raise .failed⟩
    else ⟨[], t, .ret (f a t)⟩

def echo (line : Text) : Prog Unit := fun s => (.ret (), { s with record := s.record ++ [.console line] })

/-- `command || exec sh` -/
def orShell (m : Prog Unit) : Prog Unit := Act.attempt m fun _ => Act.raise .shell

/-! ### The policy store (mnc-selinux:16-51) -/

/-- `safe`: absolute, nowhere up and without a link. -/
def safe (path : Text) : Prog (List Text) := do
  Act.require ((text "/").isPrefixOf path && text ".." ∉ slashParts path) .failed
  let link ← tell fun a _ => a.link
  Act.require (!link) .failed
  return parts path

def store : Text := text "/var/lib/selinux"

/-- The policy is read as it is, without the checks of the storage program. -/
def runtimeRoot (document : Json) : Except Stop Text :=
  match document with
  | .obj ps =>
    match Boot.itemOr ps (text "runtime_root") (.str (text "/run/mnc")) with
    | .str root => .ok root
    | _ => .error .failed
  | _ => .error .failed

/-- `Path(root) / 'selinux/store'` -/
def under (root : Text) : Text := if root.isEmpty then text "selinux/store" else root ++ text "/selinux/store"

def readonly (path : List Text) : Prog Bool := tell fun _ t => (t.place path).readonly

/-- `is_dir` and `readonly` -/
def immutable (path : List Text) : Prog Unit := do
  let directory ← tell fun a _ => a.yes
  Act.require directory .failed
  let ro ← readonly path
  Act.require ro .failed

def bindReadonly (source target : List Text) : Prog Unit := do
  command fun t => t.bind source target
  command fun t => t.lock target

def paths (document : Json) : Prog (List Text × List Text) := do
  file
  let source ← safe store
  let root ← Act.lift (runtimeRoot document)
  let captured ← safe (under root)
  return (source, captured)

def capture (document : Json) : Prog Unit := do
  let (source, captured) ← paths document
  immutable source
  file
  file
  file
  bindReadonly source captured

def finalize (document : Json) : Prog Unit := do
  let (source, captured) ← paths document
  immutable captured
  file
  bindReadonly captured source

/-! ### The storage process -/

def status : Outcome Boot.Error Unit → Outcome Stop Unit
  | .ret _ => .ret ()
  | .raise _ => .raise .failed
  | .crash => .crash

/-- `mnc-preboot storage prepare`: the policy is loaded and checked, the lock taken, and then
`prepare` runs. -/
def storagePrepare (str : Json → Text) (document : Json) : Prog Unit :=
  Session.ask fun a t =>
    if a.crash then ⟨[], t, .crash⟩
    else if a.fails then ⟨[], t, .raise .failed⟩
    else
      match Boot.validate document with
      | .error _ => ⟨[], t, .raise .failed⟩
      | .ok p =>
        let run := Boot.prepare str p { answers := a.storage }
        ⟨run.2.trace.map .storage, replay (mountsOf run.2.trace) t, status run.1⟩

/-! ### mnc-preboot -/

/-- `mountpoint -q POINT || mount …`: nobody looks at the status of the mount. -/
def mountMissing (point : Text) (args : List Text) : Prog Unit := do
  let there ← Session.ask fun a t =>
    if a.crash then ⟨[], t, .crash⟩ else ⟨[], t, .ret (!a.fails && t.isPoint (parts point))⟩
  if there then pure () else Act.attempt (mount args) fun _ => pure ()

def mountKernel : Prog Unit := do
  mountMissing (text "/proc") [text "-t", text "proc", text "proc", text "/proc"]
  mountMissing (text "/sys") [text "-t", text "sysfs", text "sysfs", text "/sys"]
  mountMissing (text "/dev") [text "-t", text "devtmpfs", text "devtmpfs", text "/dev"]
  mountMissing (text "/run") [text "-t", text "tmpfs", text "-o", text "mode=0755,nosuid,nodev", text "tmpfs",
    text "/run"]

/-- What it becomes. -/
inductive Ran where
  | init (args : List Text)
  | storage (args : List Text)
  | usage
  deriving DecidableEq, Repr

/-- The early setup of the first process (lines 29-44). -/
def setup (str : Json → Text) (document : Json) (selinux : Bool) : Prog Unit := do
  mountKernel
  echo (text "mnc-preboot: starting early setup (PID 1, before systemd).")
  if selinux then orShell (capture document) else pure ()
  echo (text "mnc-preboot: preparing storage.")
  Act.attempt (storagePrepare str document) fun _ => do
    echo (text "mnc-preboot: storage preparation failed; refusing normal startup.")
    Act.raise .shell
  if selinux then orShell (finalize document) else pure ()
  echo (text "mnc-preboot: storage ready; early setup complete. Starting systemd.")

def subcommand : List Text → Prog Ran
  | [] => pure .usage
  | name :: rest =>
    if name = text "storage" then pure (.storage rest)
    else if name ∈ [[], text "-h", text "--help"] then pure .usage
    else Act.raise (.exit 2 (text "mnc-preboot: unknown subcommand: " ++ name))

def preboot (str : Json → Text) (document : Json) (selinux : Bool) (pid : ℕ) (args : List Text) : Prog Ran :=
  if pid ≠ 1 then subcommand args
  else do
    setup str document selinux
    return .init args

/-! ### ram-init -/

def ramMounts (bootRoot : Text) : Prog Unit := do
  mount [text "-t", text "devtmpfs", text "devtmpfs", text "/dev"]
  mount [text "-t", text "proc", text "proc", text "/proc"]
  mount [text "-t", text "sysfs", text "sysfs", text "/sys"]
  mount [text "-t", text "tmpfs", text "-o", text "mode=0755,nosuid,nodev", text "tmpfs", text "/run"]
  file
  file
  mount [text "-t", text "squashfs", text "-o", text "loop,ro", bootRoot ++ text "/rootfs.squashfs", text "/newroot"]
  mount [text "--move", text "/dev", text "/newroot/dev"]
  mount [text "--move", text "/proc", text "/newroot/proc"]
  mount [text "--move", text "/sys", text "/newroot/sys"]
  mount [text "--move", text "/run", text "/newroot/run"]

/-- If `switch_root` cannot be executed the first process ends. -/
def ramInit (bootRoot : Text) (str : Json → Text) (document : Json) (selinux : Bool) : Prog Ran := do
  orShell (ramMounts bootRoot)
  command fun t => t.enter (parts (text "/newroot"))
  preboot str document selinux 1 []

/-! ### The directory of the store that is put aside -/

/-- /run/NAME/selinux/store -/
def capturedAt (name : Text) : List Text := [text "run", name, text "selinux", text "store"]

/-- What both programs make of the runtime root. -/
theorem validate_root {document : Json} {p : Boot.Policy} (h : Boot.validate document = .ok p) :
    runtimeRoot document = .ok p.runtimeRoot ∧ Boot.runtimeRootPattern p.runtimeRoot = true := by
  obtain ⟨⟨ps, rfl, hroot⟩, hpattern, -⟩ := validate_fields h
  exact ⟨by simp only [runtimeRoot, hroot], hpattern⟩

theorem after_eq {literal s rest : Text} (h : Boot.after literal s = some rest) : s = literal ++ rest := by
  unfold Boot.after at h
  split at h
  · rename_i hstart
    injection h with hrest
    have heq := List.prefix_iff_eq_append.mp (List.isPrefixOf_iff_prefix.mp hstart)
    rw [hrest] at heq
    exact heq.symm
  · cases h

/-- The runtime root is one directory of /run. -/
theorem root_named {root : Text} (h : Boot.runtimeRootPattern root = true) :
    ∃ name, root = text "/run/" ++ name ∧ 47 ∉ name ∧ name ≠ [] ∧ name ≠ text "." ∧ name ≠ text ".." := by
  unfold Boot.runtimeRootPattern at h
  split at h
  · rename_i c rest hafter
    rw [Bool.and_eq_true, List.all_eq_true] at h
    have hdot : c ≠ 46 := by
      intro hc
      rw [hc] at h
      exact absurd h.1 (by decide)
    have hslash : 47 ∉ c :: rest := by
      intro hin
      rcases List.mem_cons.mp hin with hc | hrest
      · rw [← hc] at h
        exact absurd h.1 (by decide)
      · exact absurd (h.2 47 hrest) (by decide)
    refine ⟨c :: rest, after_eq hafter, hslash, by simp, ?_, ?_⟩
    · intro heq
      exact hdot (List.cons.inj heq).1
    · intro heq
      exact hdot (List.cons.inj heq).1
  · cases h

theorem slashParts_captured {name : Text} (h : 47 ∉ name) :
    slashParts (text "/run/" ++ name ++ text "/selinux/store") = [] :: capturedAt name := by
  have hjoin : text "/run/" ++ name ++ text "/selinux/store" = [47].intercalate ([] :: capturedAt name) := by
    have hrun : text "/run/" = 47 :: (text "run" ++ [47]) := by decide
    have hstore : text "/selinux/store" = 47 :: (text "selinux" ++ 47 :: text "store") := by decide
    rw [hrun, hstore]
    simp [capturedAt, List.intercalate, List.intersperse]
  have hparts : 47 ∉ text "run" ∧ 47 ∉ text "selinux" ∧ 47 ∉ text "store" := by decide
  rw [hjoin, slashParts, List.splitOn_intercalate]
  · simp [capturedAt, h, hparts]
  · simp

theorem parts_captured {name : Text} (h : 47 ∉ name) (hne : name ≠ []) (hdot : name ≠ text ".") :
    parts (under (text "/run/" ++ name)) = capturedAt name := by
  have hfixed : ∀ part ∈ [text "run", text "selinux", text "store"], part ≠ [] ∧ part ≠ text "." := by decide
  have hunder : under (text "/run/" ++ name) = text "/run/" ++ name ++ text "/selinux/store" := rfl
  unfold parts
  rw [hunder, slashParts_captured h, List.filter_cons_of_neg (by simp), List.filter_eq_self]
  intro part hp
  have hgood : part ≠ [] ∧ part ≠ text "." := by
    simp only [capturedAt, List.mem_cons, List.not_mem_nil, or_false] at hp
    rcases hp with rfl | rfl | rfl | rfl
    · exact hfixed _ (by simp)
    · exact ⟨hne, hdot⟩
    · exact hfixed _ (by simp)
    · exact hfixed _ (by simp)
  simp [hgood]

/-! ### Runs that return -/

section Returns
variable {s s' : Machine} {u : Unit}

/-- The table and the record are as they were. -/
structure Same (s s' : Machine) : Prop where
  table : s'.world = s.world
  record : s'.record = s.record

theorem Same.refl (s : Machine) : Same s s := ⟨rfl, rfl⟩

theorem Same.trans {a b c : Machine} (hab : Same a b) (hbc : Same b c) : Same a c :=
  ⟨hbc.table.trans hab.table, hbc.record.trans hab.record⟩

theorem command_ret {change : Table → Table} (h : command change s = (.ret u, s')) :
    s'.world = change s.world ∧ s'.record = s.record := by
  unfold command Session.ask at h
  dsimp only at h
  split at h
  · cases h
  · split at h
    · cases h
    · injection h with _ hs
      rw [← hs]
      exact ⟨rfl, List.append_nil _⟩

theorem file_ret (h : file s = (.ret u, s')) : Same s s' := by
  obtain ⟨hw, hr⟩ := command_ret h
  exact ⟨hw, hr⟩

theorem tell_ret {α : Type} {f : Answer → Table → α} {a : α} (h : tell f s = (.ret a, s')) :
    a = f s.next s.world ∧ Same s s' := by
  unfold tell Session.ask at h
  dsimp only at h
  split at h
  · cases h
  · split at h
    · cases h
    · injection h with ha hs
      injection ha with ha
      rw [← hs]
      exact ⟨ha.symm, rfl, List.append_nil _⟩

theorem echo_ret {line : Text} (h : echo line s = (.ret u, s')) :
    s'.world = s.world ∧ s'.record = s.record ++ [.console line] := by
  injection h with _ hs
  rw [← hs]
  exact ⟨rfl, rfl⟩

theorem attempt_raise_ret {m : Prog Unit} {g : Stop → Prog Unit} (hg : ∀ e s a s', g e s ≠ (.ret a, s'))
    (h : Act.attempt m g s = (.ret u, s')) : m s = (.ret u, s') := by
  unfold Act.attempt at h
  rcases hm : m s with ⟨o, s₁⟩
  rw [hm] at h
  cases o with
  | ret a => exact h
  | raise e => exact absurd h (hg e s₁ u s')
  | crash => cases h

theorem orShell_ret {m : Prog Unit} (h : orShell m s = (.ret u, s')) : m s = (.ret u, s') :=
  attempt_raise_ret (fun _ _ _ _ hraise => by cases hraise) h

theorem safe_ret {path : Text} {q : List Text} (h : safe path s = (.ret q, s')) : q = parts path ∧ Same s s' := by
  obtain ⟨_, s₁, h₁, h⟩ := Act.bind_ret h
  obtain ⟨-, hs₁⟩ := Act.require_ret h₁
  obtain ⟨link, s₂, h₂, h⟩ := Act.bind_ret h
  obtain ⟨-, hs₂⟩ := tell_ret h₂
  obtain ⟨_, s₃, h₃, h⟩ := Act.bind_ret h
  obtain ⟨-, hs₃⟩ := Act.require_ret h₃
  injection h with hq hs
  injection hq with hq
  rw [← hs, hs₃]
  rw [hs₁] at hs₂
  exact ⟨hq.symm, hs₂⟩

theorem immutable_ret {path : List Text} (h : immutable path s = (.ret u, s')) :
    (s.world.place path).readonly = true ∧ Same s s' := by
  obtain ⟨directory, s₁, h₁, h⟩ := Act.bind_ret h
  obtain ⟨-, hs₁⟩ := tell_ret h₁
  obtain ⟨_, s₂, h₂, h⟩ := Act.bind_ret h
  obtain ⟨-, hs₂⟩ := Act.require_ret h₂
  obtain ⟨ro, s₃, h₃, h⟩ := Act.bind_ret h
  obtain ⟨hro, hs₃⟩ := tell_ret h₃
  obtain ⟨htrue, hs'⟩ := Act.require_ret h
  rw [hs₂] at hro hs₃
  rw [htrue, hs₁.table] at hro
  rw [hs']
  exact ⟨hro.symm, hs₁.trans hs₃⟩

theorem bindReadonly_ret {a b : List Text} (h : bindReadonly a b s = (.ret u, s')) :
    s'.world = s.world.add b { s.world.place a with readonly := true } ∧ s'.record = s.record := by
  obtain ⟨_, s₁, h₁, h₂⟩ := Act.bind_ret h
  obtain ⟨hw₁, hr₁⟩ := command_ret h₁
  obtain ⟨hw₂, hr₂⟩ := command_ret h₂
  constructor
  · rw [hw₂, hw₁]
    exact Mounts.lock_add
  · rw [hr₂, hr₁]

theorem paths_ret {document : Json} {q : List Text × List Text} (h : paths document s = (.ret q, s')) :
    (∃ root, runtimeRoot document = .ok root ∧ q = (parts store, parts (under root))) ∧
      Same s s' := by
  obtain ⟨_, s₁, h₁, h⟩ := Act.bind_ret h
  obtain ⟨a, s₂, h₂, h⟩ := Act.bind_ret h
  obtain ⟨ha, hs₂⟩ := safe_ret h₂
  obtain ⟨root, s₃, h₃, h⟩ := Act.bind_ret h
  obtain ⟨hroot, hs₃⟩ := Act.lift_ret h₃
  obtain ⟨b, s₄, h₄, h⟩ := Act.bind_ret h
  obtain ⟨hb, hs₄⟩ := safe_ret h₄
  injection h with hq hs
  injection hq with hq
  rw [hs₃] at hs₄
  rw [← hs, ← hq, ha, hb]
  exact ⟨⟨root, hroot, rfl⟩, (file_ret h₁).trans (hs₂.trans hs₄)⟩

/-- The store was read-only, and is seen read-only at the second place. -/
theorem capture_ret {document : Json} (h : capture document s = (.ret u, s')) :
    ∃ root, runtimeRoot document = .ok root ∧ (s.world.place (parts store)).readonly = true ∧
      s'.world = s.world.add (parts (under root)) (s.world.place (parts store)) ∧
      s'.record = s.record := by
  obtain ⟨q, s₁, h₁, h⟩ := Act.bind_ret h
  obtain ⟨⟨root, hroot, hq⟩, hs₁⟩ := paths_ret h₁
  obtain ⟨_, s₂, h₂, h⟩ := Act.bind_ret h
  obtain ⟨hro, hs₂⟩ := immutable_ret h₂
  obtain ⟨_, s₃, h₃, h⟩ := Act.bind_ret h
  obtain ⟨_, s₄, h₄, h⟩ := Act.bind_ret h
  obtain ⟨_, s₅, h₅, h⟩ := Act.bind_ret h
  obtain ⟨hw, hr⟩ := bindReadonly_ret h
  have hsame := hs₁.trans (hs₂.trans ((file_ret h₃).trans ((file_ret h₄).trans (file_ret h₅))))
  rw [hs₁.table, hq] at hro
  rw [hsame.table, hq, Spot.locked_eq hro] at hw
  exact ⟨root, hroot, hro, hw, hr.trans hsame.record⟩

theorem finalize_ret {document : Json} (h : finalize document s = (.ret u, s')) :
    ∃ root, runtimeRoot document = .ok root ∧
      (s.world.place (parts (under root))).readonly = true ∧
      s'.world = s.world.add (parts store) (s.world.place (parts (under root))) ∧
      s'.record = s.record := by
  obtain ⟨q, s₁, h₁, h⟩ := Act.bind_ret h
  obtain ⟨⟨root, hroot, hq⟩, hs₁⟩ := paths_ret h₁
  obtain ⟨_, s₂, h₂, h⟩ := Act.bind_ret h
  obtain ⟨hro, hs₂⟩ := immutable_ret h₂
  obtain ⟨_, s₃, h₃, h⟩ := Act.bind_ret h
  obtain ⟨hw, hr⟩ := bindReadonly_ret h
  have hsame := hs₁.trans (hs₂.trans (file_ret h₃))
  rw [hs₁.table, hq] at hro
  rw [hsame.table, hq, Spot.locked_eq hro] at hw
  exact ⟨root, hroot, hro, hw, hr.trans hsame.record⟩

theorem storagePrepare_ret {str : Json → Text} {document : Json} (h : storagePrepare str document s = (.ret u, s')) :
    ∃ p status, Boot.validate document = .ok p ∧ .storage (.status status) ∈ s'.record ∧
      s'.world = replay (prepareMounts str p status) s.world := by
  unfold storagePrepare Session.ask at h
  dsimp only at h
  split at h
  · cases h
  · split at h
    · cases h
    · split at h
      · cases h
      · rename_i p hp
        rcases hrun : Boot.prepare str p { answers := s.next.storage } with ⟨o, w⟩
        rw [hrun] at h
        cases o with
        | ret v =>
          obtain ⟨l, hl, st, hst, hm⟩ := prepare_adds str p _ v w hrun
          have htrace : w.trace = l := by simpa using hl
          injection h with _ hs
          rw [← hs]
          refine ⟨p, st, hp, ?_, ?_⟩
          · rw [Session.moved_record, htrace]
            exact List.mem_append_right _ (List.mem_map_of_mem hst)
          · rw [Session.moved_world, htrace, hm]
        | raise e => cases h
        | crash => cases h

/-- The mounts of the kernel file systems are over what was there. -/
def Kernel (t t' : Table) : Prop :=
  t'.base = t.base ∧ ∃ front, t'.stack = front ++ t.stack ∧
    ∀ m ∈ front, m.point ∈ [[text "proc"], [text "sys"], [text "dev"], [text "run"]]

theorem Kernel.refl (t : Table) : Kernel t t := ⟨rfl, [], rfl, by simp⟩

theorem Kernel.trans {a b c : Table} (hab : Kernel a b) (hbc : Kernel b c) : Kernel a c := by
  obtain ⟨hb, front, hf, hall⟩ := hab
  obtain ⟨hb', front', hf', hall'⟩ := hbc
  refine ⟨hb'.trans hb, front' ++ front, by rw [hf', hf, List.append_assoc], ?_⟩
  intro m hm
  rcases List.mem_append.mp hm with hm | hm
  · exact hall' m hm
  · exact hall m hm

theorem Kernel.mount (t : Table) {point : List Text} (fs : Text) (readonly : Bool)
    (h : point ∈ [[text "proc"], [text "sys"], [text "dev"], [text "run"]]) : Kernel t (t.mount point fs readonly) := by
  refine ⟨rfl, [⟨point, ⟨fs, [], readonly⟩⟩], rfl, ?_⟩
  intro m hm
  rw [List.mem_singleton] at hm
  rw [hm]
  exact h

theorem command_raise {change : Table → Table} {e : Stop} (h : command change s = (.raise e, s')) : Same s s' := by
  unfold command Session.ask at h
  dsimp only at h
  split at h
  · cases h
  · split at h
    · injection h with _ hs
      rw [← hs]
      exact ⟨rfl, List.append_nil _⟩
    · cases h

theorem mountMissing_ret {point : Text} {args : List Text} (hkernel : ∀ t, Kernel t (mounting args t))
    (h : mountMissing point args s = (.ret u, s')) : Kernel s.world s'.world := by
  obtain ⟨there, s₁, h₁, h⟩ := Act.bind_ret h
  have hs₁ : s₁.world = s.world := by
    unfold Session.ask at h₁
    dsimp only at h₁
    split at h₁
    · cases h₁
    · injection h₁ with _ hs
      rw [← hs]
      rfl
  cases there with
  | true =>
    injection h with _ hs
    rw [← hs, hs₁]
    exact Kernel.refl _
  | false =>
    have htry : Act.attempt (mount args) (fun _ => pure ()) s₁ = (.ret u, s') := h
    unfold Act.attempt at htry
    rcases hm : mount args s₁ with ⟨o, s₂⟩
    rw [hm] at htry
    cases o with
    | ret v =>
      injection htry with _ hs
      rw [← hs, (command_ret hm).1, hs₁]
      exact hkernel s.world
    | raise e =>
      injection htry with _ hs
      rw [← hs, (command_raise hm).table, hs₁]
      exact Kernel.refl _
    | crash => cases htry

theorem mountKernel_ret (h : mountKernel s = (.ret u, s')) : Kernel s.world s'.world := by
  obtain ⟨_, s₁, h₁, h⟩ := Act.bind_ret h
  obtain ⟨_, s₂, h₂, h⟩ := Act.bind_ret h
  obtain ⟨_, s₃, h₃, h⟩ := Act.bind_ret h
  have hparts : parts (text "/proc") = [text "proc"] ∧ parts (text "/sys") = [text "sys"] ∧
      parts (text "/dev") = [text "dev"] ∧ parts (text "/run") = [text "run"] := by decide
  obtain ⟨hproc, hsys, hdev, hrun⟩ := hparts
  have k₁ : Kernel s.world s₁.world := by
    apply mountMissing_ret _ h₁
    intro t
    simp only [mounting, if_true, hproc]
    exact Kernel.mount t _ _ (by simp)
  have k₂ : Kernel s₁.world s₂.world := by
    apply mountMissing_ret _ h₂
    intro t
    simp only [mounting, if_true, hsys]
    exact Kernel.mount t _ _ (by simp)
  have k₃ : Kernel s₂.world s₃.world := by
    apply mountMissing_ret _ h₃
    intro t
    simp only [mounting, if_true, hdev]
    exact Kernel.mount t _ _ (by simp)
  have k₄ : Kernel s₃.world s'.world := by
    apply mountMissing_ret _ h
    intro t
    simp only [mounting, and_self, if_true, hrun]
    exact Kernel.mount t _ _ (by simp)
  exact k₁.trans (k₂.trans (k₃.trans k₄))

end Returns

/-! ### The system that is handed over -/

/-- A mount over the store changes none of that. -/
theorem shows_store {s : Boot.Status} {t : Table} (h : Shows s t) (spot : Spot Text Text) :
    Shows s (t.add (parts store) spot) where
  role := by
    intro role
    have hpoint : ∀ role, ¬ parts store <+: [roleName role] := by
      intro role
      cases role <;> decide
    rw [Mounts.place_add_apart (hpoint role), h.role]
  machineId := (Mounts.place_add_apart (by decide)).trans h.machineId
  lib := (Mounts.place_add_apart (by decide)).trans h.lib
  ssh := (Mounts.place_add_apart (by decide)).trans h.ssh
  keys := (Mounts.place_add_apart (by decide)).trans h.keys

theorem Kernel.same_store {t t' : Table} (h : Kernel t t') : t'.place (parts store) = t.place (parts store) := by
  obtain ⟨hb, front, hf, hall⟩ := h
  have hkernel : ∀ point ∈ [[text "proc"], [text "sys"], [text "dev"], [text "run"]], ¬ point <+: parts store := by
    decide
  have ht' : t' = ⟨t.base, front ++ t.stack⟩ := by
    rw [← hb, ← hf]
  rw [ht']
  exact Mounts.place_skip fun m hm => hkernel m.point (hall m hm)

/-- The store that was put aside is still seen where it was put, unless the runtime root is /run/ssh: then the
state role hides it, which is not read-only. -/
theorem place_captured (s : Boot.Status) (base : Spot Text Text) (name : Text) (spot : Spot Text Text)
    (back : List (Mount Text Text))
    (h : ((⟨base, prepared s ++ ⟨capturedAt name, spot⟩ :: back⟩ : Table).place (capturedAt name)).readonly = true) :
    (⟨base, prepared s ++ ⟨capturedAt name, spot⟩ :: back⟩ : Table).place (capturedAt name) = spot := by
  by_cases hname : name = text "ssh"
  · have hhidden : ∀ m ∈ (prepared s).take 1, ¬ m.point <+: [text "run", text "ssh"] ++ [text "selinux", text "store"] := by
      have hpoint : ¬ [text "root", text ".ssh"] <+: [text "run", text "ssh"] ++ [text "selinux", text "store"] := by decide
      intro m hm
      rw [List.mem_singleton.mp hm]
      exact hpoint
    have hstate : (⟨base, (prepared s).take 1 ++ ⟨[text "run", text "ssh"], osSpot s (text "ssh") false⟩ ::
        ((prepared s).drop 2 ++ ⟨capturedAt name, spot⟩ :: back)⟩ : Table).place
          ([text "run", text "ssh"] ++ [text "selinux", text "store"]) =
        (osSpot s (text "ssh") false).below [text "selinux", text "store"] := Mounts.place_found hhidden
    rw [hname] at h
    have hwritable : ((osSpot s (text "ssh") false).below [text "selinux", text "store"]).readonly = true := by
      rw [← hstate, ← h, hname]
      rfl
    cases hwritable
  · have hdistinct : text "root" ≠ text "run" ∧ text "var" ≠ text "run" ∧ text "etc" ≠ text "run" ∧
        text "data" ≠ text "run" ∧ text "state" ≠ text "run" ∧ text "factory" ≠ text "run" := by decide
    apply shown (prepared s) _ rfl
    simp [prepared, capturedAt, List.cons_prefix_cons, hdistinct, Ne.symm hname]

/-- What holds when systemd starts: the storage preparation has returned for the policy, the status that it
wrote says what is mounted, and the policy store is the one of the image. -/
structure Handover (document : Json) (selinux : Bool) (t t' : Table) (record : List Line) : Prop where
  checked : ∃ p, Boot.validate document = .ok p
  mounted : ∃ s, .storage (.status s) ∈ record ∧ Shows s t'
  base : t'.base = t.base
  store : selinux = true → (t.place (parts store)).readonly = true ∧ t'.place (parts store) = t.place (parts store)

section Setup
variable {s s' : Machine} {u : Unit} {str : Json → Text} {document : Json} {selinux : Bool}

/-- `if ! … storage prepare; then … exec sh; fi` -/
theorem prepared_ret {message : Text} (hstr : ∀ v n, Boot.numeric? v = some n → 44 ∉ str v)
    (h : Act.attempt (storagePrepare str document) (fun _ => do
      echo message
      Act.raise .shell) s = (.ret u, s')) :
    ∃ p st, Boot.validate document = .ok p ∧ .storage (.status st) ∈ s'.record ∧
      s'.world = ⟨s.world.base, prepared st ++ s.world.stack⟩ := by
  have hprepare : storagePrepare str document s = (.ret u, s') := by
    apply attempt_raise_ret _ h
    intro e x a x' hraise
    obtain ⟨_, y, -, hy⟩ := Act.bind_ret hraise
    cases hy
  obtain ⟨p, st, hp, hst, hw⟩ := storagePrepare_ret hprepare
  obtain ⟨-, -, n, hn⟩ := validate_fields hp
  rw [replay_prepared (Boot.validate_ok hp) (hstr _ n hn)] at hw
  exact ⟨p, st, hp, hst, hw⟩

theorem setup_ret (hstr : ∀ v n, Boot.numeric? v = some n → 44 ∉ str v)
    (h : setup str document selinux s = (.ret u, s')) : Handover document selinux s.world s'.world s'.record := by
  obtain ⟨_, s₁, h₁, h⟩ := Act.bind_ret h
  have hkernel := mountKernel_ret h₁
  obtain ⟨_, s₂, h₂, h⟩ := Act.bind_ret h
  obtain ⟨hw₂, -⟩ := echo_ret h₂
  cases selinux with
  | false =>
    obtain ⟨_, s₃, h₃, h⟩ := Act.bind_ret h
    obtain ⟨hw₃, -⟩ := echo_ret h₃
    obtain ⟨_, s₄, h₄, h⟩ := Act.bind_ret h
    obtain ⟨p, st, hp, hst, hw₄⟩ := prepared_ret hstr h₄
    obtain ⟨hw', hr'⟩ := echo_ret h
    rw [hw₃, hw₂, hkernel.1] at hw₄
    rw [hw', hr', hw₄]
    constructor
    · exact ⟨p, hp⟩
    · exact ⟨st, List.mem_append_left _ hst, shows_prepared st _ _⟩
    · rfl
    · intro hse
      cases hse
  | true =>
    obtain ⟨_, s₃, h₃, h⟩ := Act.bind_ret h
    obtain ⟨root, hroot, hro, hw₃, -⟩ := capture_ret (orShell_ret h₃)
    obtain ⟨_, s₄, h₄, h⟩ := Act.bind_ret h
    obtain ⟨hw₄, -⟩ := echo_ret h₄
    obtain ⟨_, s₅, h₅, h⟩ := Act.bind_ret h
    obtain ⟨p, st, hp, hst, hw₅⟩ := prepared_ret hstr h₅
    obtain ⟨_, s₆, h₆, h⟩ := Act.bind_ret h
    obtain ⟨root', hroot', hro', hw₆, hr₆⟩ := finalize_ret (orShell_ret h₆)
    obtain ⟨hw', hr'⟩ := echo_ret h
    obtain ⟨hsame, hpattern⟩ := validate_root hp
    have hroots : root = p.runtimeRoot ∧ root' = p.runtimeRoot :=
      ⟨Except.ok.inj (hroot.symm.trans hsame), Except.ok.inj (hroot'.symm.trans hsame)⟩
    obtain ⟨name, hname, hslash, hne, hdot, -⟩ := root_named hpattern
    have hparts : parts (under p.runtimeRoot) = capturedAt name := by
      rw [hname]
      exact parts_captured hslash hne hdot
    rw [hw₂, hkernel.same_store] at hro hw₃
    rw [hw₄, hw₃, hroots.1, hparts] at hw₅
    rw [hroots.2, hparts, hw₅] at hro' hw₆
    have hstore := place_captured st _ name _ _ hro'
    have hshown : s₆.world.place (parts store) = s.world.place (parts store) := by
      rw [hw₆, Mounts.place_add_at]
      exact hstore
    rw [hw', hr']
    constructor
    · exact ⟨p, hp⟩
    · refine ⟨st, List.mem_append_left _ (hr₆ ▸ hst), ?_⟩
      rw [hw₆]
      exact shows_store (shows_prepared st _ _) _
    · rw [hw₆]
      exact hkernel.1
    · intro _
      exact ⟨hro, hshown⟩

theorem first_ret (hstr : ∀ v n, Boot.numeric? v = some n → 44 ∉ str v) {args passed : List Text}
    (h : preboot str document selinux 1 args s = (.ret (.init passed), s')) :
    passed = args ∧ Handover document selinux s.world s'.world s'.record := by
  unfold preboot at h
  rw [if_neg (by simp)] at h
  obtain ⟨_, s₁, h₁, h⟩ := Act.bind_ret h
  injection h with hran hs
  injection hran with hran
  injection hran with hargs
  rw [← hs]
  exact ⟨hargs.symm, setup_ret hstr h₁⟩

/-- systemd is only started by the first process, and only on a prepared storage. -/
theorem systemd_starts_prepared (hstr : ∀ v n, Boot.numeric? v = some n → 44 ∉ str v) {pid : ℕ} {args passed : List Text}
    (h : preboot str document selinux pid args s = (.ret (.init passed), s')) :
    pid = 1 ∧ passed = args ∧ Handover document selinux s.world s'.world s'.record := by
  by_cases hpid : pid = 1
  · rw [hpid] at h
    exact ⟨hpid, first_ret hstr h⟩
  · unfold preboot at h
    rw [if_pos hpid] at h
    unfold subcommand at h
    split at h
    · cases h
    · split at h
      · cases h
      · split at h
        · cases h
        · cases h

/-- The squashfs as the root, with the kernel file systems moved onto it. -/
def ramTable (bootRoot : Text) : Table where
  base := ⟨bootRoot ++ text "/rootfs.squashfs", [], true⟩
  stack := [⟨[text "run"], ⟨text "tmpfs", [], false⟩⟩, ⟨[text "sys"], ⟨text "sysfs", [], false⟩⟩,
    ⟨[text "proc"], ⟨text "proc", [], false⟩⟩, ⟨[text "dev"], ⟨text "devtmpfs", [], false⟩⟩]

theorem ramMounts_ret {bootRoot : Text} {root : Spot Text Text} (hs : s.world = ⟨root, []⟩)
    (h : ramMounts bootRoot s = (.ret u, s')) : s'.world.enter (parts (text "/newroot")) = ramTable bootRoot := by
  obtain ⟨_, s₁, h₁, h⟩ := Act.bind_ret h
  obtain ⟨_, s₂, h₂, h⟩ := Act.bind_ret h
  obtain ⟨_, s₃, h₃, h⟩ := Act.bind_ret h
  obtain ⟨_, s₄, h₄, h⟩ := Act.bind_ret h
  obtain ⟨_, s₅, h₅, h⟩ := Act.bind_ret h
  obtain ⟨_, s₆, h₆, h⟩ := Act.bind_ret h
  obtain ⟨_, s₇, h₇, h⟩ := Act.bind_ret h
  obtain ⟨_, s₈, h₈, h⟩ := Act.bind_ret h
  obtain ⟨_, s₉, h₉, h⟩ := Act.bind_ret h
  obtain ⟨_, s₁₀, h₁₀, h⟩ := Act.bind_ret h
  rw [(command_ret h).1, (command_ret h₁₀).1, (command_ret h₉).1, (command_ret h₈).1, (command_ret h₇).1,
    (command_ret h₆).1, (command_ret h₅).1, (command_ret h₄).1, (command_ret h₃).1, (command_ret h₂).1,
    (command_ret h₁).1, hs]
  rfl

/-- Behind ram-init the root is the squashfs in memory, and so is the policy store that systemd sees. -/
theorem systemd_starts_in_ram (hstr : ∀ v n, Boot.numeric? v = some n → 44 ∉ str v) {bootRoot : Text}
    {root : Spot Text Text} (hs : s.world = ⟨root, []⟩) {passed : List Text}
    (h : ramInit bootRoot str document selinux s = (.ret (.init passed), s')) :
    s'.world.base = ⟨bootRoot ++ text "/rootfs.squashfs", [], true⟩ ∧
      (∃ st, .storage (.status st) ∈ s'.record ∧ Shows st s'.world) ∧
      (selinux = true →
        s'.world.place (parts store) = ⟨bootRoot ++ text "/rootfs.squashfs", parts store, true⟩) := by
  obtain ⟨_, s₁, h₁, h⟩ := Act.bind_ret h
  have hram := ramMounts_ret hs (orShell_ret h₁)
  obtain ⟨_, s₂, h₂, h⟩ := Act.bind_ret h
  have htable : s₂.world = ramTable bootRoot := (command_ret h₂).1.trans hram
  obtain ⟨-, hhandover⟩ := first_ret hstr h
  rw [htable] at hhandover
  have hstore : (ramTable bootRoot).place (parts store) = ⟨bootRoot ++ text "/rootfs.squashfs", parts store, true⟩ := rfl
  refine ⟨hhandover.base, hhandover.mounted, ?_⟩
  intro hselinux
  rw [(hhandover.store hselinux).2, hstore]

end Setup

namespace Sample

def str (_ : Json) : Text := text "32"

theorem str_plain (v : Json) (n : ℚ) (_ : Boot.numeric? v = some n) : 44 ∉ str v := by
  show 44 ∉ text "32"
  decide

/-- Every question about a directory is answered with yes; the storage is reset on the way. -/
def answer : Answer := { yes := true, storage := Boot.Sample.answers }

def started (table : Table) : Machine := Session.opened (fun _ => answer) table

def image : Table := ⟨⟨text "/dev/sda4", [], true⟩, []⟩

def ram : Table := ⟨⟨text "rootfs", [], false⟩, []⟩

end Sample

theorem systemd_starts_prepared_reset :
    (preboot Sample.str Boot.Sample.document true 1 [] (Sample.started Sample.image)).1 = .ret (.init []) ∧
      Handover Boot.Sample.document true Sample.image
        (preboot Sample.str Boot.Sample.document true 1 [] (Sample.started Sample.image)).2.world
        (preboot Sample.str Boot.Sample.document true 1 [] (Sample.started Sample.image)).2.record := by
  have hstarts : (preboot Sample.str Boot.Sample.document true 1 [] (Sample.started Sample.image)).1 =
      .ret (.init []) := by
    decide +kernel
  exact ⟨hstarts, (systemd_starts_prepared Sample.str_plain (Act.run_eq hstarts)).2.2⟩

theorem systemd_starts_in_ram_reset :
    (ramInit (text "/run/boot") Sample.str Boot.Sample.document true (Sample.started Sample.ram)).1 = .ret (.init []) ∧
      (ramInit (text "/run/boot") Sample.str Boot.Sample.document true (Sample.started Sample.ram)).2.world.place
        (parts store) = ⟨text "/run/boot/rootfs.squashfs", parts store, true⟩ := by
  have hstarts : (ramInit (text "/run/boot") Sample.str Boot.Sample.document true (Sample.started Sample.ram)).1 =
      .ret (.init []) := by
    decide +kernel
  exact ⟨hstarts, (systemd_starts_in_ram Sample.str_plain rfl (Act.run_eq hstarts)).2.2 rfl⟩

end Monutchee.Storage.Preboot
