import Monutchee.Storage.Backup
import Monutchee.Lib.Act

/-!
# Restoring a backup (mnc-storage:355-395)

`restore` copies the product file to the factory partition and the settings to the state
partition. Every command and every creation and write of `cp -a` is a step of its own, and a run
may be cut off before any of them: killed, or by a loss of power, which leaves the steps that had
reached the medium. A later run finds a destination that exists and takes it for the copy of an
earlier run if its contents are those of the backup; otherwise it refuses. Owners, modes and
labels are not compared and left out here.
-/

namespace Monutchee.Storage.Restore
open Monutchee.Lib Monutchee.Lib.Act Monutchee.Lib.Files
open Monutchee.Storage.Boot (Error mountPath item numeric? slashParts)

/-! ### Partitions -/

/-- What is on a partition lies in directories. -/
structure Partition where
  disk : Disk
  closed : ∀ path e, disk.find path = some e →
    ∀ q ∈ ancestors path, ∃ d, disk.find q = some d ∧ d.isDir = true

/-! ### Steps -/

/-- `parent` is a directory above the destination; `create`, `replace` and `write` are what `cp -a`
does. -/
inductive Step where
  | target
  | umount
  | mount
  | parent (path : List Text)
  | create (path : List Text) (e : Entry)
  | replace (path : List Text) (e : Entry)
  | write (path : List Text) (chunk : Bytes)
  | relabel
  | sync
  deriving DecidableEq

def Step.copies : Step → Bool
  | .create .. => true
  | .replace .. => true
  | .write .. => true
  | _ => false

def Entry.append (chunk : Bytes) : Entry → Entry
  | .stored (.file data) => .stored (.file (data ++ chunk))
  | e => e

def Step.onDisk : Step → Disk → Disk
  | .parent path, d => d.add path (.stored .directory)
  | .create path e, d => d.add path e
  | .replace path e, d => d.change path fun _ => e
  | .write path chunk, d => d.change path (Entry.append chunk)
  | _, d => d

/-- The types of the filesystems mounted at the target, the last one first. -/
def Step.onMounts : Step → List Text → List Text
  | .mount, mounts => text "ext4" :: mounts
  | .umount, mounts => mounts.tail
  | _, mounts => mounts

/-- `power` is the number of steps until the run is cut off. -/
structure Machine where
  disk : Role → Disk
  mounts : Role → List Text
  power : Option ℕ

def Machine.apply (w : Machine) (role : Role) (s : Step) : Machine where
  disk := Function.update w.disk role (s.onDisk (w.disk role))
  mounts := Function.update w.mounts role (s.onMounts (w.mounts role))
  power := w.power.map (· - 1)

abbrev Prog := Act Machine Error

def act (role : Role) (s : Step) : Prog Unit := fun w =>
  if w.power = some 0 then (.crash, w) else (.ret (), w.apply role s)

/-! ### cp -a -/

/-- What the machine decides about a copy: the order in which directories are read, a directory
before what is in it, the sizes of the writes, and what a copied link leads to. -/
structure Copier where
  order : List (List Text × Entry) → List (List Text × Entry)
  perm : ∀ l, (order l).Perm l
  parents : ∀ l, (l.map Prod.fst).Nodup → (order l).Pairwise fun a b => ¬ b.1 <+: a.1
  chunks : Bytes → List Bytes
  whole : ∀ data, (chunks data).flatten = data
  nonempty : ∀ data, ∀ chunk ∈ chunks data, chunk ≠ []
  leads : List Text → Option Kind

/-- What an object is at its new place. -/
def Copier.image (c : Copier) (q : List Text) : Entry → Entry
  | .link _ => .link (c.leads q)
  | e => e

def Copier.entry (c : Copier) (dest : List Text) : List Text × Entry → List Step
  | (q, .stored (.file data)) => .create (dest ++ q) (.stored (.file [])) :: (c.chunks data).map (.write (dest ++ q))
  | (q, e) => [.create (dest ++ q) (c.image q e)]

def Copier.copy (c : Copier) (dest : List Text) (source : List (List Text × Entry)) : List Step :=
  (c.order source).flatMap (c.entry dest)

/-! ### restore -/

/-- What a run finds on its host. -/
structure Host where
  devices : Boot.Devices
  listing : Boot.Inventory
  selinux : Bool
  copier : Copier

/-- `==` on values that were read from JSON; the readers' NaN is not equal to itself. -/
def equalLeaf : Json → Json → Bool
  | .null, .null => true
  | .str s, .str t => s == t
  | a, b => (numeric? a).isSome && numeric? a == numeric? b

mutual

def equal : Json → Json → Bool
  | .arr l, .arr m => equalItems l m
  | .obj ps, .obj qs => ps.length == qs.length && equalMembers ps qs
  | a, b => equalLeaf a b

def equalItems : List Json → List Json → Bool
  | [], [] => true
  | a :: l, b :: m => equal a b && equalItems l m
  | _, _ => false

def equalMembers : List (Text × Json) → List (Text × Json) → Bool
  | [], _ => true
  | (k, v) :: ps, qs => (match qs.lookup k with | some w => equal v w | none => false) && equalMembers ps qs

end

def source (role : Role) : List Text := if role = .state then [text "settings"] else [PRODUCT]

def destination (p : Boot.Policy) (role : Role) : List Text :=
  slashParts (if role = .state then p.settings else p.productInfo)

/-- `str(dest)` -/
def destinationText (p : Boot.Policy) (role : Role) : Text :=
  mountPath role ++ text "/" ++ (if role = .state then p.settings else p.productInfo)

def contentsOf (lib : Reader) : Entry → Except Error (Option Text)
  | .stored (.file data) => .ok (some (lib.sha256 data))
  | .stored .directory => .ok none
  | .link _ => .error (.runtime (text "restore destination contains a symlink"))
  | .special => .error .other

/-- `contents`, with its nested dictionaries kept flat: a file leads to its digest and a directory to
nothing. -/
def contents (lib : Reader) (l : List (List Text × Entry)) : Except Error (List (List Text × Option Text)) :=
  l.mapM fun x => do
    let value ← contentsOf lib x.2
    return (x.1, value)

def compare (lib : Reader) (p : Boot.Policy) (tree : Disk) (role : Role) (disk : Disk) : Except Error Unit := do
  refuse (tree.find (source role)).isNone .other
  let a ← contents lib (tree.subtree (source role))
  let b ← contents lib (disk.subtree (destination p role))
  Boot.require (sameListing a b) (text "restore refuses conflicting existing " ++ destinationText p role)

/-- `dest.exists()` -/
def there (p : Boot.Policy) (role : Role) (disk : Disk) : Bool := (disk.find (destination p role)).any Entry.exists

def mkdirParent (role : Role) (q : List Text) : Prog Unit := do
  let disk ← Act.gets (·.disk role)
  match disk.find q with
  | none => act role (.parent q)
  | some e => Act.require e.isDir .other

/-- `mkdir(parents=True, exist_ok=True)` -/
def mkdirParents (role : Role) (paths : List (List Text)) : Prog Unit := Act.each (mkdirParent role) paths

/-- The label of the copy and the end of it. -/
def settle (host : Host) (role : Role) : Prog Unit := do
  if host.selinux then act role .relabel else pure ()
  act role .sync

/-- `cp -a`. It does not write through a link that leads nowhere; a link or a special file takes its
place. -/
def copyTree (p : Boot.Policy) (c : Copier) (tree : Disk) (role : Role) (disk : Disk) : Except Error (List Step) :=
  match tree.find (source role), disk.find (destination p role) with
  | none, _ => .error .other
  | some _, none => .ok (c.copy (destination p role) (tree.subtree (source role)))
  | some (.stored _), some _ => .error .other
  | some e, some _ => .ok [.replace (destination p role) (c.image [] e)]

def freshCopy (p : Boot.Policy) (host : Host) (tree : Disk) (role : Role) : Prog Unit := do
  let disk ← Act.gets (·.disk role)
  let steps ← Act.lift (copyTree p host.copier tree role disk)
  Act.each (act role) steps
  settle host role

def copyRole (lib : Reader) (p : Boot.Policy) (host : Host) (tree : Disk) (role : Role) : Prog Unit := do
  let disk ← Act.gets (·.disk role)
  if there p role disk then do
    Act.lift (compare lib p tree role disk)
    settle host role
  else do
    mkdirParents role (ancestors (destination p role))
    freshCopy p host tree role

/-- `try: … finally:` -/
def guarded (m last : Prog Unit) : Prog Unit := do
  Act.attempt m fun e => do
    last
    Act.raise e
  last

def tmpfs : List Text := [text "tmpfs"]

/-- The empty file system of a maintenance boot is taken away. -/
def clearTarget (role : Role) : Prog Unit := do
  act role .target
  let mounts ← Act.gets (·.mounts role)
  if mounts = tmpfs then act role .umount else pure ()

def mountedError (role : Role) : Error :=
  .runtime (text "restore requires unmounted destination: " ++ mountPath role)

def mountRole (lib : Reader) (p : Boot.Policy) (host : Host) (tree : Disk) (role : Role) :
    Prog Unit := do
  let mounts ← Act.gets (·.mounts role)
  Act.require mounts.isEmpty (mountedError role)
  act role .mount
  guarded (copyRole lib p host tree role) (act role .umount)

def restoreRole (lib : Reader) (p : Boot.Policy) (host : Host) (tree : Disk) (role : Role) :
    Prog Unit := do
  clearTarget role
  mountRole lib p host tree role

/-- The checks of `restore` and the extraction. -/
def opening (lib : Reader) (p : Boot.Policy) (file : BackupFile) (host : Host) :
    Except Error Disk := do
  Boot.require host.devices.complete (text "all three policy partitions are required")
  let manifest ← verifyArchive lib file
  let theirs ← item manifest (text "target")
  let ours ← match p.target with
    | some t => .ok t
    | none => .error .other
  Boot.require (equal theirs ours) (text "backup target mismatch")
  let nodes := host.listing.nodes.filter fun n => roles.any fun role => host.devices role == some n.name
  Boot.require (nodes.length == roles.length && nodes.all fun n => !n.mounted)
    (text "restore requires unmounted policy partitions")
  -- the archive is opened again, now also as a compressed one
  let members ← lib.getmembers .any file.content
  lib.unpack members

def restore (lib : Reader) (p : Boot.Policy) (file : BackupFile) (host : Host) : Prog Unit := do
  let tree ← Act.lift (opening lib p file host)
  restoreRole lib p host tree .factory
  restoreRole lib p host tree .state

/-! ### The steps of an undisturbed run -/

/-- The steps of a run in their order, and the error it ends with. -/
structure Script where
  steps : List Step
  error : Option Error

def Script.andThen (a b : Script) : Script :=
  match a.error with
  | none => ⟨a.steps ++ b.steps, b.error⟩
  | some e => ⟨a.steps, some e⟩

def perform (role : Role) (s : Script) : Prog Unit := do
  Act.each (act role) s.steps
  match s.error with
  | none => pure ()
  | some e => Act.raise e

def parentScript (q : List Text) (disk : Disk) : Script :=
  match disk.find q with
  | none => ⟨[.parent q], none⟩
  | some e => ⟨[], if e.isDir then none else some .other⟩

def stepsOn (l : List Step) (d : Disk) : Disk := l.foldl (fun d s => s.onDisk d) d

def parentsScript : List (List Text) → Disk → Script
  | [], _ => ⟨[], none⟩
  | q :: rest, disk =>
    (parentScript q disk).andThen (parentsScript rest (stepsOn (parentScript q disk).steps disk))

def settleSteps (host : Host) : List Step := (if host.selinux then [.relabel] else []) ++ [.sync]

def copyTreeScript (p : Boot.Policy) (host : Host) (tree : Disk) (role : Role) (disk : Disk) : Script :=
  match copyTree p host.copier tree role disk with
  | .ok steps => ⟨steps ++ settleSteps host, none⟩
  | .error e => ⟨[], some e⟩

def copyScript (lib : Reader) (p : Boot.Policy) (host : Host) (tree : Disk) (role : Role)
    (disk : Disk) : Script :=
  if there p role disk then
    match compare lib p tree role disk with
    | .ok () => ⟨settleSteps host, none⟩
    | .error e => ⟨[], some e⟩
  else (parentsScript (ancestors (destination p role)) disk).andThen (copyTreeScript p host tree role disk)

def clearSteps (mounts : List Text) : List Step := .target :: (if mounts = tmpfs then [.umount] else [])

def roleScript (lib : Reader) (p : Boot.Policy) (host : Host) (tree : Disk) (role : Role)
    (disk : Disk) (mounts : List Text) : Script :=
  if mounts = tmpfs ∨ mounts = [] then
    let copy := copyScript lib p host tree role disk
    ⟨clearSteps mounts ++ .mount :: copy.steps ++ [.umount], copy.error⟩
  else ⟨clearSteps mounts, some (mountedError role)⟩

@[simp] theorem stepsOn_nil (d : Disk) : stepsOn [] d = d := rfl

@[simp] theorem stepsOn_cons (s : Step) (l : List Step) (d : Disk) :
    stepsOn (s :: l) d = stepsOn l (s.onDisk d) := rfl

@[simp] theorem stepsOn_append (a b : List Step) (d : Disk) : stepsOn (a ++ b) d = stepsOn b (stepsOn a d) :=
  List.foldl_append

def Machine.applyAll (w : Machine) (role : Role) (l : List Step) : Machine :=
  l.foldl (fun w s => w.apply role s) w

theorem applyAll_disk (w : Machine) (role : Role) (l : List Step) :
    (w.applyAll role l).disk role = stepsOn l (w.disk role) := by
  induction l generalizing w with
  | nil => rfl
  | cons s l ih =>
    rw [Machine.applyAll, List.foldl_cons, ← Machine.applyAll, ih, stepsOn_cons]
    simp [Machine.apply]

/-- The other partition, and what is mounted over it, stay as they are. -/
theorem applyAll_other (w : Machine) {role other : Role} (h : other ≠ role) (l : List Step) :
    (w.applyAll role l).disk other = w.disk other ∧ (w.applyAll role l).mounts other = w.mounts other := by
  induction l generalizing w with
  | nil => exact ⟨rfl, rfl⟩
  | cons s l ih =>
    rw [Machine.applyAll, List.foldl_cons, ← Machine.applyAll, (ih _).1, (ih _).2]
    simp [Machine.apply, Function.update_of_ne h]

theorem applyAll_power (w : Machine) (role : Role) (l : List Step) :
    (w.applyAll role l).power = w.power.map (· - l.length) := by
  induction l generalizing w with
  | nil => simp [Machine.applyAll]
  | cons s l ih =>
    rw [Machine.applyAll, List.foldl_cons, ← Machine.applyAll, ih, Machine.apply]
    cases w.power with
    | none => rfl
    | some n =>
      simp only [Option.map_some, List.length_cons, Option.some.injEq]
      omega

section Perform

variable {role : Role}

/-- A run is cut off where its power ends. -/
theorem each_act_run (l : List Step) (w : Machine) :
    Act.each (act role) l w =
      if ∀ n, w.power = some n → l.length ≤ n then (.ret (), w.applyAll role l)
      else (.crash, w.applyAll role (l.take (w.power.getD 0))) := by
  induction l generalizing w with
  | nil =>
    rw [if_pos (by simp)]
    rfl
  | cons s l ih =>
    show (act role s >>= fun _ => Act.each (act role) l) w = _
    rw [Act.bind_apply, act]
    by_cases hp : w.power = some 0
    · rw [if_pos hp, if_neg (by simp [hp]), hp]
      rfl
    · rw [if_neg hp]
      simp only [ih]
      cases hw : w.power with
      | none => simp [Machine.apply, hw, Machine.applyAll]
      | some n =>
        obtain ⟨m, rfl⟩ : ∃ m, n = m + 1 := Nat.exists_eq_succ_of_ne_zero (by rintro rfl; exact hp hw)
        simp [Machine.apply, hw, Machine.applyAll]

theorem each_append {a b : List Step} :
    Act.each (act role) (a ++ b) = Act.each (act role) a >>= fun _ => Act.each (act role) b := by
  induction a with
  | nil => rfl
  | cons s a ih =>
    show Act.bind (act role s) (fun _ => Act.each (act role) (a ++ b)) = _
    rw [ih]
    exact (Act.bind_assoc _ _ _).symm

/-- Steps alone do not raise. -/
theorem each_act_ne_raise {l : List Step} {e : Error} (w : Machine) :
    (Act.each (act role) l w).1 ≠ .raise e := by
  rw [each_act_run]
  split <;> simp

theorem perform_andThen (a b : Script) :
    perform role (a.andThen b) = perform role a >>= fun _ => perform role b := by
  unfold perform Script.andThen
  cases a.error with
  | none =>
    simp only [each_append, Act.bind_assoc]
    rfl
  | some e =>
    simp only [Act.bind_assoc]
    rfl

theorem perform_steps (l : List Step) : perform role ⟨l, none⟩ = Act.each (act role) l := by
  funext w
  unfold perform
  rw [Act.bind_apply]
  rcases h : Act.each (act role) l w with ⟨o, w'⟩
  cases o with
  | ret u => rfl
  | raise e => rfl
  | crash => rfl

theorem guarded_perform (s : Script) (last : Step) :
    guarded (perform role s) (act role last) = perform role ⟨s.steps ++ [last], s.error⟩ := by
  funext w
  unfold guarded perform
  simp only [each_append, Act.bind_assoc]
  rw [Act.bind_apply, Act.attempt, Act.bind_apply, Act.bind_apply]
  rcases h : Act.each (act role) s.steps w with ⟨o, w'⟩
  cases o with
  | ret u =>
    have hone : Act.each (act role) [last] = act role last >>= fun _ => pure () := rfl
    rw [hone, Act.bind_assoc]
    cases s.error with
    | none =>
      simp only [Act.pure_apply, Act.bind_apply, act]
      by_cases hp : w'.power = some 0 <;> simp [hp]
    | some e =>
      simp only [Act.raise_apply, Act.bind_apply, act]
      by_cases hp : w'.power = some 0 <;> simp [hp]
  | raise e => exact absurd (congrArg Prod.fst h) (each_act_ne_raise w)
  | crash => rfl

/-! ### Steps that leave the destination alone -/

def Quiet (dest : List Text) : Step → Prop
  | .parent q => q ∈ ancestors dest
  | .create .. => False
  | .replace .. => False
  | .write .. => False
  | _ => True

/-- Nothing has changed but that directories above the destination may be new. -/
structure Extends (dest : List Text) (d d' : Disk) : Prop where
  below : ∀ r, d'.find (dest ++ r) = d.find (dest ++ r)
  above : ∀ q ∈ ancestors dest, d'.find q = d.find q ∨
    d.find q = none ∧ d'.find q = some (.stored .directory)

theorem Extends.refl (dest : List Text) (d : Disk) : Extends dest d d := ⟨fun _ => rfl, fun _ _ => .inl rfl⟩

theorem Extends.trans {dest : List Text} {a b c : Disk} (h : Extends dest a b) (h' : Extends dest b c) :
    Extends dest a c := by
  refine ⟨fun r => (h'.below r).trans (h.below r), ?_⟩
  intro q hq
  rcases h.above q hq with e | ⟨hn, hd⟩
  · rcases h'.above q hq with e' | ⟨hn', hd'⟩
    · exact .inl (e'.trans e)
    · exact .inr ⟨e ▸ hn', hd'⟩
  · rcases h'.above q hq with e' | ⟨hn', -⟩
    · exact .inr ⟨hn, e'.trans hd⟩
    · rw [hd] at hn'
      cases hn'

theorem onDisk_quiet {dest : List Text} {s : Step} (hs : Quiet dest s) (d : Disk) :
    Extends dest d (s.onDisk d) := by
  cases s with
  | parent path =>
    have ha : path ∈ ancestors dest := hs
    constructor
    · intro r
      have hne : dest ++ r ≠ path := fun h => append_not_mem_ancestors (h ▸ ha)
      rw [Step.onDisk, Tree.find_add, if_neg hne, Option.or_none]
    · intro q _
      rw [Step.onDisk, Tree.find_add]
      by_cases hq : q = path
      · rw [if_pos hq]
        cases d.find q with
        | none => exact .inr ⟨rfl, rfl⟩
        | some e => exact .inl rfl
      · rw [if_neg hq, Option.or_none]
        exact .inl rfl
  | create path e => cases hs
  | replace path e => cases hs
  | write path chunk => cases hs
  | _ => exact Extends.refl dest d

theorem stepsOn_quiet {dest : List Text} {l : List Step} (h : ∀ s ∈ l, Quiet dest s) (d : Disk) :
    Extends dest d (stepsOn l d) := by
  induction l generalizing d with
  | nil => exact Extends.refl dest d
  | cons s l ih =>
    exact (onDisk_quiet (h s (List.mem_cons_self ..)) d).trans
      (ih (fun x hx => h x (List.mem_cons_of_mem _ hx)) _)

theorem parentsScript_quiet {dest : List Text} {paths : List (List Text)} {d : Disk}
    (h : ∀ q ∈ paths, q ∈ ancestors dest) : ∀ s ∈ (parentsScript paths d).steps, Quiet dest s := by
  induction paths generalizing d with
  | nil => simp [parentsScript]
  | cons q rest ih =>
    have hq : ∀ s ∈ (parentScript q d).steps, Quiet dest s := by
      unfold parentScript
      split
      · intro s hs
        rw [List.mem_singleton.mp hs]
        exact h q (List.mem_cons_self ..)
      · simp
    intro s hs
    unfold parentsScript Script.andThen at hs
    split at hs
    · rcases List.mem_append.mp hs with hs | hs
      · exact hq s hs
      · exact ih (fun x hx => h x (List.mem_cons_of_mem _ hx)) s hs
    · exact hq s hs

/-! ### The program follows its script -/

/-- The program does what the script says, which may depend on the machine it starts on. -/
def Follows (role : Role) (m : Prog Unit) (f : Machine → Script) : Prop :=
  ∀ w, m w = perform role (f w) w

theorem Follows.bind {m n : Prog Unit} {f g : Machine → Script} (hm : Follows role m f)
    (hn : Follows role n g) :
    Follows role (m >>= fun _ => n) fun w => (f w).andThen (g (w.applyAll role (f w).steps)) := by
  intro w
  rw [perform_andThen, Act.bind_apply, Act.bind_apply, hm w]
  rcases h : perform role (f w) w with ⟨o, w'⟩
  cases o with
  | ret u =>
    have hw' : w' = w.applyAll role (f w).steps := by
      obtain ⟨_, w₁, h₁, h₂⟩ := Act.bind_ret h
      rw [each_act_run] at h₁
      split at h₁
      · cases h₁
        cases he : (f w).error with
        | none =>
          rw [he] at h₂
          cases h₂
          rfl
        | some e =>
          rw [he] at h₂
          cases h₂
      · cases h₁
    subst hw'
    exact hn _
  | raise e => rfl
  | crash => rfl

theorem follows_act (s : Step) : Follows role (act role s) fun _ => ⟨[s], none⟩ := by
  intro w
  rw [perform_steps]
  show act role s w = (act role s >>= fun _ => pure ()) w
  rw [Act.bind_apply, act]
  split <;> rfl

theorem follows_each (l : List Step) : Follows role (Act.each (act role) l) fun _ => ⟨l, none⟩ := by
  intro w
  rw [perform_steps]

theorem mkdirParents_follows (paths : List (List Text)) :
    Follows role (mkdirParents role paths) fun w => parentsScript paths (w.disk role) := by
  induction paths with
  | nil => exact fun _ => rfl
  | cons q rest ih =>
    have hone : Follows role (mkdirParent role q) fun w => parentScript q (w.disk role) := by
      intro w
      unfold mkdirParent parentScript
      rw [Act.gets_bind]
      cases hq : (w.disk role).find q with
      | none =>
        simp only [hq]
        exact follows_act _ w
      | some e =>
        simp only [hq]
        cases e.isDir with
        | true => rfl
        | false => rfl
    intro w
    have h := hone.bind ih w
    simp only [applyAll_disk] at h
    exact h

theorem settle_follows (host : Host) : Follows role (settle host role) fun _ => ⟨settleSteps host, none⟩ := by
  intro w
  unfold settle settleSteps
  cases host.selinux with
  | true => exact (follows_act Step.relabel).bind (follows_act Step.sync) w
  | false => exact follows_act Step.sync w

theorem copyRole_follows (lib : Reader) (p : Boot.Policy) (host : Host) (tree : Disk) :
    Follows role (copyRole lib p host tree role) fun w => copyScript lib p host tree role (w.disk role) := by
  intro w
  show copyRole lib p host tree role w = perform role (copyScript lib p host tree role (w.disk role)) w
  unfold copyRole copyScript
  rw [Act.gets_bind]
  by_cases ht : there p role (w.disk role) = true
  · rw [if_pos ht, if_pos ht]
    cases compare lib p tree role (w.disk role) with
    | ok u => exact settle_follows host w
    | error e => rfl
  · rw [if_neg ht, if_neg ht]
    have hcopy : Follows role (freshCopy p host tree role) fun w => copyTreeScript p host tree role (w.disk role) := by
      intro w
      unfold freshCopy copyTreeScript
      rw [Act.gets_bind]
      cases h : copyTree p host.copier tree role (w.disk role) with
      | ok steps =>
        simp only [h]
        exact (follows_each steps).bind (settle_follows host) w
      | error e =>
        simp only [h]
        rfl
    have h := (mkdirParents_follows (ancestors (destination p role))).bind hcopy w
    have hquiet : ∀ s ∈ (parentsScript (ancestors (destination p role)) (w.disk role)).steps,
        Quiet (destination p role) s := parentsScript_quiet fun _ hq => hq
    have hsame := (stepsOn_quiet hquiet (w.disk role)).below []
    rw [List.append_nil] at hsame
    have hscript : copyTreeScript p host tree role (stepsOn (parentsScript (ancestors (destination p role))
        (w.disk role)).steps (w.disk role)) = copyTreeScript p host tree role (w.disk role) := by
      unfold copyTreeScript copyTree
      rw [hsame]
    simp only [applyAll_disk, hscript] at h
    exact h

theorem clearTarget_follows : Follows role (clearTarget role) fun w => ⟨clearSteps (w.mounts role), none⟩ := by
  have hsecond : Follows role (Act.gets (fun w : Machine => w.mounts role) >>= fun mounts =>
      if mounts = tmpfs then act role .umount else pure ())
      fun w => ⟨if w.mounts role = tmpfs then [.umount] else [], none⟩ := by
    intro w
    rw [Act.gets_bind]
    by_cases h : w.mounts role = tmpfs
    · simp only [if_pos h]
      exact follows_act Step.umount w
    · simp only [if_neg h]
      rfl
  intro w
  have h := (follows_act Step.target).bind hsecond w
  have hmounts : (w.applyAll role [Step.target]).mounts role = w.mounts role := by
    simp [Machine.applyAll, Machine.apply, Step.onMounts]
  simp only [hmounts] at h
  exact h

theorem applyAll_clearSteps (w : Machine) : (w.applyAll role (clearSteps (w.mounts role))).disk role = w.disk role ∧
    (w.applyAll role (clearSteps (w.mounts role))).mounts role =
      if w.mounts role = tmpfs then [] else w.mounts role := by
  unfold clearSteps
  by_cases h : w.mounts role = tmpfs
  · simp only [if_pos h]
    simp [Machine.applyAll, Machine.apply, Step.onMounts, Step.onDisk, h, tmpfs]
  · simp only [if_neg h]
    simp [Machine.applyAll, Machine.apply, Step.onMounts, Step.onDisk]

theorem mountRole_follows (lib : Reader) (p : Boot.Policy) (host : Host) (tree : Disk) :
    Follows role (mountRole lib p host tree role) fun w =>
      if (w.mounts role).isEmpty then
        ⟨.mount :: (copyScript lib p host tree role (w.disk role)).steps ++ [.umount],
          (copyScript lib p host tree role (w.disk role)).error⟩
      else ⟨[], some (mountedError role)⟩ := by
  have hguarded : Follows role (guarded (copyRole lib p host tree role) (act role .umount)) fun w =>
      ⟨(copyScript lib p host tree role (w.disk role)).steps ++ [.umount],
        (copyScript lib p host tree role (w.disk role)).error⟩ := by
    intro w
    rw [← guarded_perform]
    unfold guarded
    rw [Act.bind_apply, Act.bind_apply, Act.attempt, Act.attempt, copyRole_follows lib p host tree w]
  intro w
  unfold mountRole
  rw [Act.gets_bind]
  by_cases h : (w.mounts role).isEmpty = true
  · simp only [h, if_true]
    have hrun := (follows_act Step.mount).bind hguarded w
    have hdisk : (w.applyAll role [Step.mount]).disk role = w.disk role := by
      simp [Machine.applyAll, Machine.apply, Step.onDisk]
    simp only [hdisk] at hrun
    exact hrun
  · simp only [h]
    rfl

theorem restoreRole_follows (lib : Reader) (p : Boot.Policy) (host : Host) (tree : Disk) :
    Follows role (restoreRole lib p host tree role)
      fun w => roleScript lib p host tree role (w.disk role) (w.mounts role) := by
  intro w
  have h := (@clearTarget_follows role).bind (mountRole_follows lib p host tree) w
  simp only [(applyAll_clearSteps w).1, (applyAll_clearSteps w).2] at h
  refine h.trans ?_
  unfold roleScript
  congr 1
  by_cases htmpfs : w.mounts role = tmpfs
  · simp [htmpfs, Script.andThen]
  · by_cases hempty : w.mounts role = []
    · simp [hempty, Script.andThen, tmpfs]
    · simp [htmpfs, hempty, Script.andThen]

end Perform

end Monutchee.Storage.Restore
