import Monutchee.Storage.Policy
import Monutchee.Lib.Act

/-!
# The commands of mnc-storage prepare (mnc-storage:52-67, 259-352)

`prepare` runs once at boot, before systemd. Here it is followed command by command: every
command with its arguments, every listing of the disks, the kernel command line, the reset
journal and the holders are recorded in the order the program asks for them. The environment
answers each question as it likes, may let it fail, and may cut the power at any of them.
-/

namespace Monutchee.Storage.Boot
open Monutchee.Lib Monutchee.Lib.Act

structure RoleStatus where
  persistent : Bool
  device : Text
  error : Text
  deriving DecidableEq

/-- `status.json` -/
structure Status where
  maintenance : Bool
  role : Role → RoleStatus
  resetPrepared : Bool
  persistentSettings : Bool
  recordings : Bool
  factoryReset : Bool

/-- What is recorded. `command` is a call of `run`, `fsck` the call of e2fsck beside it. -/
inductive Event where
  | cmdline (words : List Text)
  | inventory (listing : Inventory)
  | ismount (path : Text) (answer : Bool)
  | journal (content : Option Json)
  | holders (device : Text) (names : List Text)
  | fsck (device : Text) (code : ℤ)
  | command (args : List Text) (ok : Bool)
  | status (status : Status)

/-- What the environment says to one question. -/
structure Answer where
  crash : Bool := false
  fails : Bool := false
  error : Text := []
  words : List Text := []
  listing : Inventory := {}
  yes : Bool := false
  content : Option Json := none
  names : List Text := []
  code : ℤ := 0
  line : Text := []

structure Machine where
  answers : List Answer := []
  trace : List Event := []

abbrev Prog := Act Machine Error

def Machine.draw (w : Machine) : Answer × Machine :=
  let (a, rest) := nextAnswer {} w.answers
  (a, { w with answers := rest })

def Machine.record (w : Machine) (events : List Event) : Machine := { w with trace := w.trace ++ events }

/-- One question: what it records, and its value unless it fails. -/
def question {α : Type} (events : Answer → List Event) (value : Answer → α) : Prog α := fun w =>
  let (a, w₁) := w.draw
  let w₂ := w₁.record (events a)
  if a.crash then (.crash, w₂)
  else if a.fails then (.raise (.runtime a.error), w₂)
  else (.ret (value a), w₂)

/-- A question that is answered is recorded with its answer. -/
def ask {α : Type} (event : Answer → Event) (value : Answer → α) : Prog α :=
  question (fun a => if a.crash || a.fails then [] else [event a]) value

/-- A command is recorded as soon as it is issued. -/
def run (args : List Text) : Prog Unit :=
  question (fun a => [.command args (!(a.crash || a.fails))]) fun _ => ()

/-- Any other operation on files. -/
def file : Prog Unit := question (fun _ => []) fun _ => ()

/-- A test on files, `exists` or `is_symlink`. -/
def test : Prog Bool := question (fun _ => []) (·.yes)

/-! ### Discovery -/

def inventory : Prog Inventory := ask (fun a => .inventory a.listing) (·.listing)

/-- A round of the loop looks at the disks and waits a second if a role is missing. -/
def discover (p : Policy) : ℕ → Devices → Prog Devices
  | 0, devices => pure devices
  | tries + 1, _ => do
    let listing ← inventory
    let devices ← Act.lift (resolve p listing)
    if devices.complete then pure devices
    else do
      file
      discover p tries devices

/-! ### One role -/

/-- What the reset journal says about an intent; only a dictionary has a `get`. -/
def intent (content : Option Json) : Except Error Bool :=
  match content with
  | none => .ok false
  | some (.obj ps) => .ok (truthy (itemOr ps (text "reset_intent") (.bool false)))
  | some _ => .error .other

def mkfs (p : Policy) (device : Text) : List Text :=
  [text "mkfs.ext4", text "-F", text "-L", p.label .data, device]

/-- The format of the data partition (mnc-storage:283-291). -/
def eraseData (p : Policy) (devices : Devices) (statePersistent : Bool) : Prog Unit :=
  match devices .data with
  | none => Act.raise (.runtime (text "factory reset needs persistent state and data"))
  | some device => do
    check statePersistent (text "factory reset needs persistent state and data")
    let listing ← inventory
    let nodes := listing.nodes.filter fun n => n.name == device
    check (nodes.length == 1 && nodes.all fun n => !n.mounted) (text "reset data is mounted")
    let names ← ask (fun a => .holders device a.names) (·.names)
    check names.isEmpty (text "reset data has block holders")
    run (mkfs p device)

/-- What only the data role does first (mnc-storage:280-291). -/
def resetData (p : Policy) (devices : Devices) (statePersistent : Bool) : Prog Bool := do
  let content ← ask (fun a => .journal a.content) (·.content)
  let resetting ← Act.lift (intent content)
  if resetting then do
    eraseData p devices statePersistent
    pure true
  else pure false

def partitionMount (p : Policy) (role : Role) (device : Text) : List Text :=
  [text "mount", text "-t", text "ext4", text "-o",
    (if (p.role role).readonly then text "ro,noload" else text "rw") ++ text ",nosuid,nodev,noexec",
    device, mountPath role]

/-- `str` of the size limit, which the policy may write in several ways. -/
def tmpfsOptions (str : Json → Text) (p : Policy) (role : Role) : Text :=
  text "nosuid,nodev,noexec,mode=0755,size=" ++
    (if role = .state then str p.stateTmpfsMib else text "1") ++ text "m" ++
    (if role = .state then [] else text ",ro")

def tmpfsMount (str : Json → Text) (p : Policy) (role : Role) : List Text :=
  [text "mount", text "-t", text "tmpfs", text "-o", tmpfsOptions str p role,
    text "mnc-" ++ roleName role, mountPath role]

def filesystemCheck (p : Policy) (role : Role) (device : Text) : Prog Unit :=
  if (p.role role).readonly then pure ()
  else do
    let code ← ask (fun a => .fsck device a.code) (·.code)
    check (code == 0 || code == 1) (text "filesystem needs manual repair")

def mountPartition (p : Policy) (role : Role) (device : Text) : Prog RoleStatus := do
  filesystemCheck p role device
  run (partitionMount p role device)
  pure ⟨true, device, []⟩

def errorText : Error → Text
  | .runtime message => message
  | .other => []

/-- An error with the partition is recorded and the role gets a tmpfs. -/
def tryPartition (p : Policy) (maintenance : Bool) (devices : Devices) (role : Role) : Prog RoleStatus :=
  match devices role with
  | some device => Act.attempt (mountPartition p role device) fun e => pure ⟨false, [], errorText e⟩
  | none => pure ⟨false, [], if maintenance then text "maintenance_boot" else text "partition_missing"⟩

/-- `prepare_journal`: a directory and its handle for each part of the path. -/
def prepareJournal (p : Policy) : Prog Unit := do
  file
  Act.each (fun _ => do file; file) (slashParts p.journalDirectory)

def settleRole (str : Json → Text) (p : Policy) (role : Role) (status : RoleStatus) : Prog Unit :=
  if status.persistent then
    if role = .data then prepareJournal p else pure ()
  else run (tmpfsMount str p role)

def enterRole (role : Role) : Prog Unit := do
  file
  let mounted ← ask (fun a => .ismount (mountPath role) a.yes) (·.yes)
  check (!mounted) (text "role already mounted before preparation: " ++ roleName role)

def mountRole (str : Json → Text) (p : Policy) (maintenance : Bool) (devices : Devices) (role : Role) :
    Prog RoleStatus := do
  let status ← tryPartition p maintenance devices role
  settleRole str p role status
  pure status

/-! ### The rest of prepare -/

/-- The four paths that a reset deletes. -/
def resetPaths (p : Policy) : List Text :=
  [text "/state/" ++ p.settings, text "/state/os/var-lib/monutchee", text "/state/os/ssh",
    text "/state/os/root-ssh"]

def removePath (_ : Text) : Prog Unit := do
  let link ← test
  check (!link) (text "unsafe reset path")
  let there ← test
  if there then do
    file
    file
  else pure ()

def prepareReset (p : Policy) (resetting dataPersistent : Bool) : Prog Unit :=
  if resetting then do
    check dataPersistent (text "cannot complete reset without data")
    Act.each removePath (resetPaths p)
  else pure ()

/-- `[0-9a-f]{32}\n?` -/
def machineIdPattern (s : Text) : Bool :=
  let hex := fun c => digit c || (97 ≤ c && c ≤ 102)
  (s.length == 32 && s.all hex) || (s.length == 33 && (s.take 32).all hex && s.getLast? == some 10)

def machineId : Prog Unit := do
  file
  let there ← test
  if there then pure ()
  else do
    file
    file
    file
    file
    file
  let line ← question (fun _ => []) (·.line)
  check (machineIdPattern line) (text "invalid persistent machine-id")
  run [text "mount", text "--bind", text "/state/os/machine-id", text "/etc/machine-id"]
  run [text "mount", text "-o", text "remount,bind,ro", text "/etc/machine-id"]

/-- A directory of the state role that is bound into the system. -/
def bindLeaf (leaf target : Text) : Prog Unit := do
  let source := text "/state/os/" ++ leaf
  let there ← test
  if there then pure ()
  else do
    file
    if target == text "/var/lib" then run [text "cp", text "-a", text "/var/lib/.", source] else pure ()
  file
  run [text "mount", text "--bind", source, target]

/-- `p['target'] + '\n'`: the target is not validated. -/
def writeHostname (p : Policy) : Prog Unit :=
  match p.target with
  | some (.str _) => file
  | _ => Act.raise .other

def writeStatus (s : Status) : Prog Unit := ask (fun _ => .status s) fun _ => ()

def finish (p : Policy) (maintenance resetting : Bool) (factory state data : RoleStatus) : Prog Unit := do
  prepareReset p resetting data.persistent
  machineId
  bindLeaf (text "var-lib") (text "/var/lib")
  bindLeaf (text "ssh") (text "/run/ssh")
  bindLeaf (text "root-ssh") (text "/root/.ssh")
  file
  writeHostname p
  file
  writeStatus {
    maintenance := maintenance
    role := fun role => match role with
      | .factory => factory
      | .state => state
      | .data => data
    resetPrepared := resetting
    persistentSettings := state.persistent
    recordings := data.persistent
    factoryReset := state.persistent && data.persistent }
  file

def maintenanceWord : Text := text "mnc.storage=maintenance"

def prepare (str : Json → Text) (p : Policy) : Prog Unit := do
  let initial ← test
  check (!initial) (text "prepare must be called by the early init wrapper")
  file
  -- a policy without a target has no status
  if p.target.isNone then Act.raise .other else pure ()
  let words ← ask (fun a => .cmdline a.words) (·.words)
  let maintenance := words.contains maintenanceWord
  let devices ← discover p (if maintenance then 0 else 10) fun _ => none
  enterRole .factory
  let factory ← mountRole str p maintenance devices .factory
  enterRole .state
  let state ← mountRole str p maintenance devices .state
  enterRole .data
  let resetting ← resetData p devices state.persistent
  let data ← mountRole str p maintenance devices .data
  finish p maintenance resetting factory state data

/-! ### What a program records -/

/-- The program adds only events of a kind to the trace. -/
def Appends (S : Event → Prop) (w w' : Machine) : Prop :=
  ∃ l, w'.trace = w.trace ++ l ∧ ∀ e ∈ l, S e

section Appends

variable {S T : Event → Prop} {α : Type}

theorem appends_refl (w : Machine) : Appends S w w := ⟨[], by simp, by simp⟩

theorem appends_trans (a b c : Machine) (hab : Appends S a b) (hbc : Appends S b c) : Appends S a c := by
  obtain ⟨l, hl, hS⟩ := hab
  obtain ⟨m, hm, hS'⟩ := hbc
  refine ⟨l ++ m, by rw [hm, hl, List.append_assoc], ?_⟩
  intro e he
  rcases List.mem_append.mp he with he | he
  · exact hS e he
  · exact hS' e he

theorem Appends.mono {w w' : Machine} (h : Appends S w w') (hST : ∀ e, S e → T e) : Appends T w w' := by
  obtain ⟨l, hl, hS⟩ := h
  exact ⟨l, hl, fun e he => hST e (hS e he)⟩

theorem draw_trace (w : Machine) : w.draw.2.trace = w.trace := rfl

theorem question_ensures {events : Answer → List Event} {value : Answer → α}
    (hS : ∀ a, ∀ e ∈ events a, S e) (w : Machine) :
    Ensures (Appends S) (question events value) w fun v w' =>
      ∃ a, (a.crash || a.fails) = false ∧ v = value a ∧ w'.trace = w.trace ++ events a := by
  have htrace : ∀ a, (w.draw.2.record (events a)).trace = w.trace ++ events a := by
    intro a
    rw [Machine.record, draw_trace]
  unfold question
  refine ⟨?_, ?_⟩
  · show Appends S w _
    dsimp only
    split
    · exact ⟨_, htrace _, hS _⟩
    · split
      · exact ⟨_, htrace _, hS _⟩
      · exact ⟨_, htrace _, hS _⟩
  · intro v w' h
    dsimp only at h
    split at h
    · cases h
    · split at h
      · cases h
      · rename_i hcrash hfails
        cases h
        exact ⟨w.draw.1, by simp [hcrash, hfails], rfl, htrace _⟩

theorem ask_ensures {event : Answer → Event} {value : Answer → α} (hS : ∀ a, S (event a)) (w : Machine) :
    Ensures (Appends S) (ask event value) w fun v w' =>
      ∃ a, v = value a ∧ w'.trace = w.trace ++ [event a] := by
  have hall : ∀ a : Answer, ∀ e ∈ (if a.crash || a.fails then [] else [event a]), S e := by
    intro a e he
    split at he
    · cases he
    · rw [List.mem_singleton] at he
      rw [he]
      exact hS a
  refine (question_ensures hall w).mono ?_
  rintro v w' ⟨a, hquiet, hv, hw⟩
  rw [hquiet] at hw
  exact ⟨a, hv, hw⟩

theorem run_ensures {args : List Text} (hS : ∀ ok, S (.command args ok)) (w : Machine) :
    Ensures (Appends S) (run args) w fun _ w' => w'.trace = w.trace ++ [.command args true] := by
  have hall : ∀ a : Answer, ∀ e ∈ [Event.command args (!(a.crash || a.fails))], S e := by
    intro a e he
    rw [List.mem_singleton] at he
    rw [he]
    exact hS _
  refine (question_ensures hall w).mono ?_
  rintro v w' ⟨a, hquiet, -, hw⟩
  rw [hquiet] at hw
  exact hw

/-- Operations that are not recorded. -/
theorem silent_ensures {value : Answer → α} (w : Machine) :
    Ensures (Appends S) (question (fun _ => []) value) w fun _ w' => w'.trace = w.trace := by
  refine (question_ensures (by simp) w).mono ?_
  rintro v w' ⟨a, -, -, hw⟩
  rw [hw, List.append_nil]

theorem check_ensures {ok : Bool} {message : Text} (w : Machine) :
    Ensures (Appends S) (check ok message) w fun _ w' => ok = true ∧ w' = w :=
  Ensures.require appends_refl fun hok => ⟨hok, rfl⟩

end Appends

/-! ### The phases -/

def isMkfs : Event → Bool
  | .command args _ => args.head? == some (text "mkfs.ext4")
  | _ => false

def IsListing (e : Event) : Prop := ∃ t, e = .inventory t

/-- Events of the work on the roles, the format and the reset journal apart. -/
def Routine : Event → Prop
  | .ismount .. => True
  | .fsck .. => True
  | .command args _ => args.head? ≠ some (text "mkfs.ext4")
  | .status _ => True
  | _ => False

theorem Routine.not_mkfs {e : Event} (h : Routine e) : isMkfs e = false := by
  cases e with
  | command args ok => exact beq_eq_false_iff_ne.mpr h
  | _ => rfl

theorem Routine.not_listing {e : Event} (h : Routine e) : ¬ IsListing e := by
  rintro ⟨t, rfl⟩
  exact h

theorem IsListing.not_mkfs {e : Event} (h : IsListing e) : isMkfs e = false := by
  obtain ⟨t, rfl⟩ := h
  rfl

def roleOfPath (path : Text) : Option Role := roles.find? fun role => mountPath role == path

/-- A successful mount on the directory of a role. -/
def roleMount? : Event → Option (Role × List Text)
  | .command args true =>
    if args.head? = some (text "mount") then
      (args.getLast?.bind roleOfPath).map fun role => (role, args)
    else none
  | _ => none

def roleMounts (t : List Event) : List (Role × List Text) := t.filterMap roleMount?

@[simp] theorem roleMounts_append (a b : List Event) : roleMounts (a ++ b) = roleMounts a ++ roleMounts b :=
  List.filterMap_append

/-- The listing that decides which partitions are used, the last one of the discovery. -/
def Listed (p : Policy) (l : List Event) (devices : Devices) : Prop :=
  ∃ earlier t, l = earlier ++ [.inventory t] ∧ (∀ e ∈ earlier, IsListing e) ∧ resolve p t = .ok devices

theorem inventory_ensures (w : Machine) :
    Ensures (Appends IsListing) inventory w fun t w' => w'.trace = w.trace ++ [.inventory t] := by
  refine (ask_ensures (fun a => ⟨a.listing, rfl⟩) w).mono ?_
  rintro t w' ⟨a, rfl, hw⟩
  exact hw

theorem discover_ensures (p : Policy) (tries : ℕ) (devices : Devices) (w : Machine) :
    Ensures (Appends IsListing) (discover p tries devices) w fun d w' =>
      ∃ l, w'.trace = w.trace ++ l ∧ (l = [] ∧ tries = 0 ∧ d = devices ∨ Listed p l d) := by
  induction tries generalizing devices w with
  | zero => exact Ensures.pure appends_refl ⟨[], by simp, .inl ⟨rfl, rfl, rfl⟩⟩
  | succ tries ih =>
    refine Ensures.bind appends_trans (inventory_ensures w) ?_
    intro t w₁ h₁
    refine Ensures.bind appends_trans
      (Ensures.lift appends_refl (Q := fun d w' => resolve p t = .ok d ∧ w' = w₁) fun d hd => ⟨hd, rfl⟩) ?_
    rintro d w₂ ⟨hd, rfl⟩
    have hlisted : Listed p [.inventory t] d := ⟨[], t, rfl, by simp, hd⟩
    split
    · exact Ensures.pure appends_refl ⟨_, h₁, .inr hlisted⟩
    · refine Ensures.bind appends_trans (silent_ensures w₂) ?_
      intro _ w₃ h₃
      refine (ih d w₃).mono ?_
      rintro d' w₄ ⟨l, hl, hcase⟩
      refine ⟨[.inventory t] ++ l, by rw [hl, h₃, h₁, List.append_assoc], .inr ?_⟩
      rcases hcase with ⟨rfl, -, rfl⟩ | ⟨earlier, t', rfl, hall, hd'⟩
      · exact hlisted
      · refine ⟨[.inventory t] ++ earlier, t', by simp, ?_, hd'⟩
        intro e he
        rcases List.mem_cons.mp he with rfl | he
        · exact ⟨t, rfl⟩
        · exact hall e he

theorem enterRole_ensures (role : Role) (w : Machine) :
    Ensures (Appends Routine) (enterRole role) w fun _ w' =>
      w'.trace = w.trace ++ [.ismount (mountPath role) false] := by
  refine Ensures.bind appends_trans (silent_ensures w) ?_
  intro _ w₁ h₁
  refine Ensures.bind appends_trans (ask_ensures (fun _ => trivial) w₁) ?_
  rintro mounted w₂ ⟨a, rfl, h₂⟩
  refine (check_ensures w₂).mono ?_
  rintro _ w₃ ⟨hfree, rfl⟩
  have hyes : a.yes = false := by simpa using hfree
  rw [h₂, h₁, hyes]

/-- Routine work that mounts no role. -/
def Plain (e : Event) : Prop := Routine e ∧ roleMount? e = none

theorem roleMounts_plain {l : List Event} (h : ∀ e ∈ l, Plain e) : roleMounts l = [] := by
  unfold roleMounts
  rw [List.filterMap_eq_nil_iff]
  exact fun e he => (h e he).2

/-- What the round of a role has done when it is over. -/
structure Mounted (str : Json → Text) (p : Policy) (devices : Devices) (role : Role) (status : RoleStatus)
    (l : List Event) : Prop where
  routine : ∀ e ∈ l, Routine e
  mounts : roleMounts l =
    [(role, if status.persistent then partitionMount p role status.device else tmpfsMount str p role)]
  resolved : status.persistent = true → devices role = some status.device

theorem head_partitionMount {p : Policy} {role : Role} {device : Text} :
    (partitionMount p role device).head? ≠ some (text "mkfs.ext4") := by
  rw [partitionMount, List.head?_cons]
  decide

theorem head_tmpfsMount {str : Json → Text} {p : Policy} {role : Role} :
    (tmpfsMount str p role).head? ≠ some (text "mkfs.ext4") := by
  rw [tmpfsMount, List.head?_cons]
  decide

theorem roleMount_partition {p : Policy} {role : Role} {device : Text} :
    roleMount? (.command (partitionMount p role device) true) = some (role, partitionMount p role device) := by
  cases role <;> rfl

theorem roleMount_tmpfs {str : Json → Text} {p : Policy} {role : Role} :
    roleMount? (.command (tmpfsMount str p role) true) = some (role, tmpfsMount str p role) := by
  cases role <;> rfl

theorem filesystemCheck_within (p : Policy) (role : Role) (device : Text) (w : Machine) :
    Ensures (Appends Plain) (filesystemCheck p role device) w fun _ w' => Appends Plain w w' := by
  unfold filesystemCheck
  split
  · exact Ensures.pure appends_refl (appends_refl w)
  · refine Ensures.bind appends_trans (ask_ensures (fun _ => ⟨trivial, rfl⟩) w) ?_
    rintro code w₁ ⟨a, rfl, h₁⟩
    refine (check_ensures w₁).mono ?_
    rintro _ w₂ ⟨-, rfl⟩
    refine ⟨_, h₁, ?_⟩
    intro e he
    rw [List.mem_singleton] at he
    rw [he]
    exact ⟨trivial, rfl⟩

theorem mountPartition_ensures (str : Json → Text) (p : Policy) (devices : Devices) (role : Role)
    (device : Text) (hd : devices role = some device) (w : Machine) :
    Ensures (Appends Routine) (mountPartition p role device) w fun status w' =>
      status.persistent = true ∧ ∃ l, w'.trace = w.trace ++ l ∧ Mounted str p devices role status l := by
  have hfsck := filesystemCheck_within p role device w
  have hfsck' : Ensures (Appends Routine) (filesystemCheck p role device) w fun _ w' => Appends Plain w w' :=
    ⟨Appends.mono hfsck.within fun _ h => h.1, hfsck.post⟩
  refine Ensures.bind appends_trans hfsck' ?_
  rintro _ w₁ ⟨l, hl, hplain⟩
  refine Ensures.bind appends_trans (run_ensures (fun _ => head_partitionMount) w₁) ?_
  intro _ w₂ h₂
  refine Ensures.pure appends_refl ⟨rfl, l ++ [.command (partitionMount p role device) true],
    by rw [h₂, hl, List.append_assoc], ?_, ?_, fun _ => hd⟩
  · intro e he
    rcases List.mem_append.mp he with he | he
    · exact (hplain e he).1
    · rw [List.mem_singleton] at he
      rw [he]
      exact head_partitionMount
  · rw [roleMounts_append, roleMounts_plain hplain, roleMounts, List.nil_append,
      List.filterMap_cons_some roleMount_partition]
    rfl

/-- A command that raises was issued and is recorded as failed. -/
theorem run_raise {args : List Text} {w w' : Machine} {e : Error} (h : run args w = (.raise e, w')) :
    w'.trace = w.trace ++ [.command args false] := by
  unfold run question at h
  dsimp only at h
  split at h
  · cases h
  · split at h
    · rename_i hcrash hfails
      cases h
      simp [Machine.record, draw_trace, hfails]
    · cases h

theorem mountPartition_raise {p : Policy} {role : Role} {device : Text} {w w' : Machine} {e : Error}
    (h : mountPartition p role device w = (.raise e, w')) : Appends Plain w w' := by
  have hfsck := filesystemCheck_within p role device w
  rcases bind_raise h with ⟨_, w₁, h₁, h₂⟩ | h₁
  · refine appends_trans _ _ _ (hfsck.post _ _ h₁) ?_
    rcases bind_raise h₂ with ⟨_, w₂, -, h₃⟩ | h₃
    · cases h₃
    · refine ⟨_, run_raise h₃, ?_⟩
      intro e he
      rw [List.mem_singleton] at he
      rw [he]
      exact ⟨head_partitionMount, rfl⟩
  · exact hfsck.within.result h₁

theorem tryPartition_ensures (str : Json → Text) (p : Policy) (maintenance : Bool) (devices : Devices)
    (role : Role) (w : Machine) :
    Ensures (Appends Routine) (tryPartition p maintenance devices role) w fun status w' =>
      (status.persistent = true ∧ ∃ l, w'.trace = w.trace ++ l ∧ Mounted str p devices role status l) ∨
        status.persistent = false ∧ Appends Plain w w' := by
  unfold tryPartition
  split
  · rename_i device hd
    refine Ensures.attempt appends_trans
      ((mountPartition_ensures str p devices role device hd w).mono fun _ _ h => .inl h) ?_
    intro e w' he
    exact Ensures.pure appends_refl (.inr ⟨rfl, mountPartition_raise he⟩)
  · exact Ensures.pure appends_refl (.inr ⟨rfl, appends_refl w⟩)

theorem prepareJournal_ensures (p : Policy) (w : Machine) :
    Ensures (Appends Routine) (prepareJournal p) w fun _ w' => w'.trace = w.trace := by
  refine Ensures.bind appends_trans (silent_ensures w) ?_
  intro _ w₁ h₁
  refine (Ensures.each_mem appends_refl appends_trans (fun _ w' => w'.trace = w.trace) ?_ [] h₁).mono
    fun _ _ h => h
  intro _ _ w₂ _ h₂
  refine Ensures.bind appends_trans (silent_ensures w₂) ?_
  intro _ w₃ h₃
  refine (silent_ensures w₃).mono ?_
  intro _ w₄ h₄
  rw [h₄, h₃, h₂]

theorem mountRole_ensures (str : Json → Text) (p : Policy) (maintenance : Bool) (devices : Devices)
    (role : Role) (w : Machine) :
    Ensures (Appends Routine) (mountRole str p maintenance devices role) w fun status w' =>
      ∃ l, w'.trace = w.trace ++ l ∧ Mounted str p devices role status l := by
  refine Ensures.bind appends_trans (tryPartition_ensures str p maintenance devices role w) ?_
  rintro status w₁ (⟨hp, l, hl, hm⟩ | ⟨hp, l, hl, hplain⟩)
  · have hsettle : Ensures (Appends Routine) (settleRole str p role status) w₁ fun _ w' =>
        w'.trace = w₁.trace := by
      unfold settleRole
      rw [if_pos hp]
      split
      · exact prepareJournal_ensures p w₁
      · exact Ensures.pure appends_refl rfl
    refine Ensures.bind appends_trans hsettle ?_
    intro _ w₂ h₂
    exact Ensures.pure appends_refl ⟨l, by rw [h₂, hl], hm⟩
  · have hsettle : Ensures (Appends Routine) (settleRole str p role status) w₁ fun _ w' =>
        w'.trace = w₁.trace ++ [.command (tmpfsMount str p role) true] := by
      unfold settleRole
      rw [if_neg (by simp [hp])]
      exact run_ensures (fun _ => head_tmpfsMount) w₁
    refine Ensures.bind appends_trans hsettle ?_
    intro _ w₂ h₂
    refine Ensures.pure appends_refl ⟨l ++ [.command (tmpfsMount str p role) true],
      by rw [h₂, hl, List.append_assoc], ?_, ?_, fun h => by rw [hp] at h; cases h⟩
    · intro e he
      rcases List.mem_append.mp he with he | he
      · exact (hplain e he).1
      · rw [List.mem_singleton] at he
        rw [he]
        exact head_tmpfsMount
    · rw [roleMounts_append, roleMounts_plain hplain, roleMounts, List.nil_append,
        List.filterMap_cons_some roleMount_tmpfs, hp]
      rfl

/-! ### The rest of the boot -/

/-- The program only adds plain events. -/
def Quiet {α : Type} (m : Prog α) : Prop := ∀ w, Ensures (Appends Plain) m w fun _ _ => True

section Quiet

variable {α β : Type}

theorem quiet_pure (a : α) : Quiet (pure a : Prog α) := fun _ => Ensures.pure appends_refl trivial

theorem quiet_raise (e : Error) : Quiet (Act.raise e : Prog α) := fun _ => Ensures.raise appends_refl

theorem quiet_check (ok : Bool) (message : Text) : Quiet (check ok message) :=
  fun w => (check_ensures w).mono fun _ _ _ => trivial

theorem quiet_silent (value : Answer → α) : Quiet (question (fun _ => []) value) :=
  fun w => (silent_ensures w).mono fun _ _ _ => trivial

theorem quiet_bind {m : Prog α} {f : α → Prog β} (hm : Quiet m) (hf : ∀ a, Quiet (f a)) :
    Quiet (m >>= f) :=
  fun w => Ensures.bind appends_trans (hm w) fun a w' _ => hf a w'

theorem quiet_run {args : List Text} (h : ∀ ok, Plain (.command args ok)) : Quiet (run args) :=
  fun w => (run_ensures h w).mono fun _ _ _ => trivial

theorem quiet_each {f : α → Prog Unit} (l : List α) (hf : ∀ a, Quiet (f a)) : Quiet (Act.each f l) :=
  fun _ => (Ensures.each_mem appends_refl appends_trans (fun _ _ => True)
    (fun _ a w _ _ => hf a w) [] trivial).mono fun _ _ _ => trivial

theorem quiet_removePath (path : Text) : Quiet (removePath path) := by
  refine quiet_bind (quiet_silent _) fun link => ?_
  refine quiet_bind (quiet_check _ _) fun _ => ?_
  refine quiet_bind (quiet_silent _) fun there => ?_
  split
  · exact quiet_bind (quiet_silent _) fun _ => quiet_silent _
  · exact quiet_pure ()

theorem quiet_prepareReset (p : Policy) (resetting dataPersistent : Bool) :
    Quiet (prepareReset p resetting dataPersistent) := by
  unfold prepareReset
  split
  · exact quiet_bind (quiet_check _ _) fun _ => quiet_each _ quiet_removePath
  · exact quiet_pure ()

theorem quiet_machineId : Quiet machineId := by
  have hbind : ∀ ok, Plain (.command
      [text "mount", text "--bind", text "/state/os/machine-id", text "/etc/machine-id"] ok) := by
    intro ok
    cases ok <;> exact ⟨by show _ ≠ _; decide, rfl⟩
  have hremount : ∀ ok, Plain (.command
      [text "mount", text "-o", text "remount,bind,ro", text "/etc/machine-id"] ok) := by
    intro ok
    cases ok <;> exact ⟨by show _ ≠ _; decide, rfl⟩
  refine quiet_bind (quiet_silent _) fun _ => ?_
  refine quiet_bind (quiet_silent _) fun there => ?_
  have hrest : Quiet (do
      let line ← question (fun _ => []) (·.line)
      check (machineIdPattern line) (text "invalid persistent machine-id")
      run [text "mount", text "--bind", text "/state/os/machine-id", text "/etc/machine-id"]
      run [text "mount", text "-o", text "remount,bind,ro", text "/etc/machine-id"]) := by
    refine quiet_bind (quiet_silent _) fun line => ?_
    refine quiet_bind (quiet_check _ _) fun _ => ?_
    exact quiet_bind (quiet_run hbind) fun _ => quiet_run hremount
  cases there with
  | true => exact hrest
  | false =>
    refine quiet_bind (quiet_silent _) fun _ => ?_
    refine quiet_bind (quiet_silent _) fun _ => ?_
    refine quiet_bind (quiet_silent _) fun _ => ?_
    refine quiet_bind (quiet_silent _) fun _ => ?_
    exact quiet_bind (quiet_silent _) fun _ => hrest

theorem quiet_bindLeaf {leaf target : Text} (ht : roleOfPath target = none) :
    Quiet (bindLeaf leaf target) := by
  have hmount : ∀ ok, Plain (.command
      [text "mount", text "--bind", text "/state/os/" ++ leaf, target] ok) := by
    intro ok
    refine ⟨by show some (text "mount") ≠ _; decide, ?_⟩
    cases ok with
    | false => rfl
    | true => simp [roleMount?, ht]
  have hcopy : ∀ ok, Plain (.command
      [text "cp", text "-a", text "/var/lib/.", text "/state/os/" ++ leaf] ok) := by
    intro ok
    refine ⟨by show some (text "cp") ≠ _; decide, ?_⟩
    have hcp : text "cp" ≠ text "mount" := by decide
    cases ok with
    | false => rfl
    | true => simp [roleMount?, hcp]
  have hrest : Quiet (do
      file
      run [text "mount", text "--bind", text "/state/os/" ++ leaf, target]) :=
    quiet_bind (quiet_silent _) fun _ => quiet_run hmount
  refine quiet_bind (quiet_silent _) fun there => ?_
  cases there with
  | true => exact hrest
  | false =>
    refine quiet_bind (quiet_silent _) fun _ => ?_
    by_cases hv : (target == text "/var/lib") = true
    · simp only [hv, if_true]
      exact quiet_bind (quiet_run hcopy) fun _ => hrest
    · simp only [hv]
      exact hrest

theorem quiet_writeHostname (p : Policy) : Quiet (writeHostname p) := by
  unfold writeHostname
  split
  · exact quiet_silent _
  · exact quiet_raise _

end Quiet

/-- The status that `prepare` writes. -/
def bootStatus (maintenance resetting : Bool) (factory state data : RoleStatus) : Status where
  maintenance := maintenance
  role := fun role => match role with
    | .factory => factory
    | .state => state
    | .data => data
  resetPrepared := resetting
  persistentSettings := state.persistent
  recordings := data.persistent
  factoryReset := state.persistent && data.persistent

theorem finish_ensures (p : Policy) (maintenance resetting : Bool) (factory state data : RoleStatus)
    (w : Machine) :
    Ensures (Appends Plain) (finish p maintenance resetting factory state data) w fun _ w' =>
      .status (bootStatus maintenance resetting factory state data) ∈ w'.trace := by
  refine Ensures.bind appends_trans (quiet_prepareReset p resetting data.persistent w) fun _ w₁ _ => ?_
  refine Ensures.bind appends_trans (quiet_machineId w₁) fun _ w₂ _ => ?_
  refine Ensures.bind appends_trans (quiet_bindLeaf rfl w₂) fun _ w₃ _ => ?_
  refine Ensures.bind appends_trans (quiet_bindLeaf rfl w₃) fun _ w₄ _ => ?_
  refine Ensures.bind appends_trans (quiet_bindLeaf rfl w₄) fun _ w₅ _ => ?_
  refine Ensures.bind appends_trans (quiet_silent _ w₅) fun _ w₆ _ => ?_
  refine Ensures.bind appends_trans (quiet_writeHostname p w₆) fun _ w₇ _ => ?_
  refine Ensures.bind appends_trans (quiet_silent _ w₇) fun _ w₈ _ => ?_
  refine Ensures.bind appends_trans (ask_ensures (fun _ => ⟨trivial, rfl⟩) w₈) ?_
  rintro _ w₉ ⟨a, -, h₉⟩
  refine (silent_ensures w₉).mono ?_
  intro _ w' h'
  rw [h', h₉]
  exact List.mem_append_right _ (List.mem_cons_self ..)

/-! ### The format -/

/-- A second listing without a user of the device. -/
def Unused (second : Inventory) (device : Text) : Prop :=
  ∃ n, second.nodes.filter (fun n => n.name == device) = [n] ∧ n.mounted = false

/-- What has been established, by the part of the trace before it, when `device` is formatted. -/
structure Justified (p : Policy) (before : List Event) (device : Text) : Prop where
  /-- no maintenance boot -/
  normal : ∃ words, Event.cmdline words ∈ before ∧ maintenanceWord ∉ words
  /-- The listing of the resolution, the mount of the state role from its partition, the intent in
  the journal, a second listing and the holders, in this order. -/
  story : ∃ first listing middle second last devices content stateDevice,
    before = first ++ [.inventory listing] ++ middle ++ [.inventory second] ++ last ∧
    (∀ e ∈ middle, ¬ IsListing e) ∧ (∀ e ∈ last, ¬ IsListing e) ∧
    resolve p listing = .ok devices ∧
    devices .state = some stateDevice ∧
    Event.command (partitionMount p .state stateDevice) true ∈ middle ∧
    Event.journal content ∈ middle ∧ intent content = .ok true ∧
    OnlyPartition p listing .data device ∧
    (∀ role, role ≠ .data → devices role ≠ some device) ∧
    Unused second device ∧
    Event.holders device [] ∈ last

/-- At most one format, and that one justified. -/
def FormatsOnly (p : Policy) (t : List Event) : Prop :=
  (t.filter isMkfs).length ≤ 1 ∧
    ∀ before e after, t = before ++ e :: after → isMkfs e = true →
      ∃ device ok, e = .command (mkfs p device) ok ∧ Justified p before device

theorem FormatsOnly.append {p : Policy} {t l : List Event} (h : FormatsOnly p t)
    (hl : ∀ e ∈ l, isMkfs e = false) : FormatsOnly p (t ++ l) := by
  have hfilter : l.filter isMkfs = [] := by
    rw [List.filter_eq_nil_iff]
    intro e he
    simp [hl e he]
  refine ⟨by rw [List.filter_append, hfilter, List.append_nil]; exact h.1, ?_⟩
  intro before e after heq hm
  have hnot : e ∉ l := by
    intro he
    rw [hl e he] at hm
    cases hm
  rcases List.append_eq_append_iff.mp heq with ⟨a, rfl, ha⟩ | ⟨c, rfl, hc⟩
  · exact absurd (ha ▸ by simp) hnot
  · cases c with
    | nil => exact absurd (by simp at hc; simp [← hc]) hnot
    | cons x c =>
      rw [List.cons_append, List.cons.injEq] at hc
      obtain ⟨rfl, -⟩ := hc
      exact h.2 before e c rfl hm

theorem FormatsOnly.of_none {p : Policy} {t : List Event} (h : ∀ e ∈ t, isMkfs e = false) :
    FormatsOnly p t := by
  have hnil : FormatsOnly p [] := by
    refine ⟨by simp, ?_⟩
    intro before e after he
    simp at he
  have := hnil.append h
  rwa [List.nil_append] at this

/-- The one format of a trace that had none. -/
theorem FormatsOnly.format {p : Policy} {t : List Event} {device : Text} (h : ∀ e ∈ t, isMkfs e = false)
    (hj : Justified p t device) (ok : Bool) : FormatsOnly p (t ++ [.command (mkfs p device) ok]) := by
  have hfilter : t.filter isMkfs = [] := by
    rw [List.filter_eq_nil_iff]
    intro e he
    simp [h e he]
  refine ⟨?_, ?_⟩
  · rw [List.filter_append, hfilter, List.nil_append]
    exact List.length_filter_le ..
  · intro before e after heq hm
    rcases List.append_eq_append_iff.mp heq with ⟨a, rfl, ha⟩ | ⟨c, rfl, hc⟩
    · cases a with
      | nil =>
        rw [List.nil_append, List.cons.injEq] at ha
        obtain ⟨rfl, -⟩ := ha
        exact ⟨device, ok, rfl, by rwa [List.append_nil]⟩
      | cons x a => simp at ha
    · cases c with
      | nil =>
        rw [List.nil_append, List.cons.injEq] at hc
        obtain ⟨rfl, -⟩ := hc
        exact ⟨device, ok, rfl, by rwa [List.append_nil] at hj⟩
      | cons x c =>
        rw [List.cons_append, List.cons.injEq] at hc
        obtain ⟨rfl, -⟩ := hc
        rw [h e (by simp)] at hm
        cases hm

theorem upholds_of_ensures {p : Policy} {S : Event → Prop} {α : Type} {m : Prog α} {w : Machine}
    {Q : α → Machine → Prop} (h : Ensures (Appends S) m w Q) (hS : ∀ e, S e → isMkfs e = false)
    (hw : FormatsOnly p w.trace) : Upholds (fun w => FormatsOnly p w.trace) m w Q := by
  obtain ⟨l, hl, hall⟩ := h.within
  refine ⟨?_, h.post⟩
  show FormatsOnly p _
  rw [hl]
  exact hw.append fun e he => hS e (hall e he)

/-- However a command ends, it is the one event added. -/
theorem run_trace (args : List Text) (w : Machine) :
    ∃ ok, (run args w).2.trace = w.trace ++ [.command args ok] := by
  have htrace : ∀ events, (w.draw.2.record events).trace = w.trace ++ events := by
    intro events
    rw [Machine.record, draw_trace]
  unfold run question
  dsimp only
  split
  · exact ⟨_, htrace _⟩
  · split
    · exact ⟨_, htrace _⟩
    · exact ⟨_, htrace _⟩

theorem unused_of_check {nodes : List Node} {device : Text}
    (h : ((nodes.filter fun n => n.name == device).length == 1 &&
      (nodes.filter fun n => n.name == device).all fun n => !n.mounted) = true) :
    ∃ n, nodes.filter (fun n => n.name == device) = [n] ∧ n.mounted = false := by
  rw [Bool.and_eq_true, beq_iff_eq, List.length_eq_one_iff] at h
  obtain ⟨⟨n, hn⟩, hall⟩ := h
  rw [hn, List.all_cons, List.all_nil, Bool.and_true, Bool.not_eq_true'] at hall
  exact ⟨n, hn, hall⟩

/-- What is known when the data role is reached. -/
structure AtData (p : Policy) (devices : Devices) (state : RoleStatus) (t : List Event) : Prop where
  unformatted : ∀ e ∈ t, isMkfs e = false
  words : ∃ words, Event.cmdline words ∈ t ∧ (maintenanceWord ∈ words → ∀ role, devices role = none)
  story : (∀ role, devices role = none) ∨ ∃ first listing middle,
    t = first ++ [.inventory listing] ++ middle ∧ (∀ e ∈ middle, ¬ IsListing e) ∧
    resolve p listing = .ok devices ∧
    (state.persistent = true → devices .state = some state.device ∧
      Event.command (partitionMount p .state state.device) true ∈ middle)

theorem AtData.justified {p : Policy} (hp : Valid p) {devices : Devices} {state : RoleStatus}
    {t : List Event} (h : AtData p devices state t) {content : Option Json} (hi : intent content = .ok true)
    {device : Text} (hd : devices .data = some device) (hs : state.persistent = true)
    {second : Inventory} (hu : Unused second device) :
    Justified p (t ++ [.journal content] ++ [.inventory second] ++ [.holders device []]) device := by
  obtain ⟨words, hwords, hmaintenance⟩ := h.words
  rcases h.story with hnone | ⟨first, listing, middle, rfl, hmiddle, hresolve, hstate⟩
  · rw [hnone] at hd
    cases hd
  · obtain ⟨hdevice, hmount⟩ := hstate hs
    refine ⟨⟨words, by simp only [List.mem_append] at hwords ⊢; tauto, ?_⟩, ?_⟩
    · intro hm
      rw [hmaintenance hm] at hd
      cases hd
    · refine ⟨first, listing, middle ++ [.journal content], second, [.holders device []], devices, content,
        state.device, by simp only [List.append_assoc], ?_, ?_, hresolve, hdevice,
        List.mem_append_left _ hmount, List.mem_append_right _ (List.mem_cons_self ..), hi,
        resolve_ok hresolve hd, ?_, hu, List.mem_cons_self ..⟩
      · intro e he
        rw [List.mem_append, List.mem_singleton] at he
        rcases he with he | rfl
        · exact hmiddle e he
        · rintro ⟨t, ht⟩
          cases ht
      · intro e he
        rw [List.mem_singleton] at he
        rw [he]
        rintro ⟨t, ht⟩
        cases ht
      · intro role hrole hr
        exact hrole (resolve_injective hp hresolve hr hd)

theorem eraseData_upholds {p : Policy} (hp : Valid p) {devices : Devices} {state : RoleStatus}
    {t : List Event} (h : AtData p devices state t) {content : Option Json} (hi : intent content = .ok true)
    (w : Machine) (hw : w.trace = t ++ [.journal content]) :
    Upholds (fun w => FormatsOnly p w.trace) (eraseData p devices state.persistent) w fun _ w' =>
      ∃ l, w'.trace = w.trace ++ l ∧ roleMounts l = [] := by
  have hnone : ∀ e ∈ w.trace, isMkfs e = false := by
    intro e he
    rw [hw, List.mem_append, List.mem_singleton] at he
    rcases he with he | rfl
    · exact h.unformatted e he
    · rfl
  have hw0 : FormatsOnly p w.trace := FormatsOnly.of_none hnone
  unfold eraseData
  split
  · exact Upholds.raise hw0
  · rename_i device hdevice
    refine Upholds.bind (upholds_of_ensures (S := Routine) (check_ensures w) (fun _ => Routine.not_mkfs) hw0) ?_
    rintro _ w₁ hw₁ ⟨hstate, rfl⟩
    refine Upholds.bind (upholds_of_ensures (inventory_ensures w₁) (fun _ => IsListing.not_mkfs) hw₁) ?_
    intro second w₂ hw₂ h₂
    refine Upholds.bind (upholds_of_ensures (S := Routine) (check_ensures w₂) (fun _ => Routine.not_mkfs) hw₂) ?_
    rintro _ w₃ hw₃ ⟨hfree, rfl⟩
    have hask : Ensures (Appends fun e => ∃ names, e = .holders device names)
        (ask (fun a => .holders device a.names) (·.names)) w₃ fun names w' =>
          ∃ a : Answer, names = a.names ∧ w'.trace = w₃.trace ++ [.holders device a.names] :=
      ask_ensures (fun a => ⟨a.names, rfl⟩) w₃
    refine Upholds.bind (upholds_of_ensures hask (by rintro _ ⟨names, rfl⟩; rfl) hw₃) ?_
    rintro names w₄ hw₄ ⟨a, rfl, h₄⟩
    refine Upholds.bind (upholds_of_ensures (S := Routine) (check_ensures w₄) (fun _ => Routine.not_mkfs) hw₄) ?_
    rintro _ w₅ hw₅ ⟨hempty, rfl⟩
    have hnames : a.names = [] := by simpa using hempty
    rw [hnames] at h₄
    have htrace : w₅.trace =
        t ++ [.journal content] ++ [.inventory second] ++ [.holders device []] := by
      rw [h₄, h₂, hw]
    have hjust := h.justified hp hi hdevice hstate (unused_of_check hfree)
    rw [← htrace] at hjust
    have hclean : ∀ e ∈ w₅.trace, isMkfs e = false := by
      intro e he
      rw [h₄, h₂, List.mem_append, List.mem_append, List.mem_singleton, List.mem_singleton] at he
      rcases he with (he | rfl) | rfl
      · exact hnone e he
      · rfl
      · rfl
    obtain ⟨ok, hrun⟩ := run_trace (mkfs p device) w₅
    refine ⟨?_, ?_⟩
    · show FormatsOnly p _
      rw [hrun]
      exact FormatsOnly.format hclean hjust ok
    · intro _ w₆ h₆
      rw [h₆] at hrun
      refine ⟨[.inventory second] ++ [.holders device []] ++ [.command (mkfs p device) ok], ?_, ?_⟩
      · rw [hrun, h₄, h₂]
        simp only [List.append_assoc]
      · cases ok <;> rfl

theorem resetData_upholds {p : Policy} (hp : Valid p) {devices : Devices} {state : RoleStatus}
    (w : Machine) (h : AtData p devices state w.trace) :
    Upholds (fun w => FormatsOnly p w.trace) (resetData p devices state.persistent) w fun _ w' =>
      ∃ l, w'.trace = w.trace ++ l ∧ roleMounts l = [] := by
  have hw := FormatsOnly.of_none (p := p) h.unformatted
  have hask : Ensures (Appends fun e => ∃ content, e = .journal content)
      (ask (fun a => .journal a.content) (·.content)) w fun content w' =>
        ∃ a : Answer, content = a.content ∧ w'.trace = w.trace ++ [.journal a.content] :=
    ask_ensures (fun a => ⟨a.content, rfl⟩) w
  refine Upholds.bind (upholds_of_ensures hask (by rintro _ ⟨content, rfl⟩; rfl) hw) ?_
  rintro content w₁ hw₁ ⟨a, rfl, h₁⟩
  refine Upholds.bind (Upholds.lift hw₁ (Q := fun r w' => intent a.content = .ok r ∧ w' = w₁)
    fun r hr => ⟨hr, rfl⟩) ?_
  rintro resetting w₂ hw₂ ⟨hi, rfl⟩
  cases resetting with
  | true =>
    refine Upholds.bind (eraseData_upholds hp h hi w₂ h₁) ?_
    rintro _ w₃ hw₃ ⟨l, hl, hm⟩
    refine Upholds.pure hw₃ ⟨[.journal a.content] ++ l, by rw [hl, h₁, List.append_assoc], ?_⟩
    rw [roleMounts_append, hm]
    rfl
  | false => exact Upholds.pure hw₂ ⟨_, h₁, rfl⟩

/-! ### The whole boot -/

/-- The mount command of a role with the given status. -/
def mountOf (str : Json → Text) (p : Policy) (r : Role × RoleStatus) : Role × List Text :=
  (r.1, if r.2.persistent then partitionMount p r.1 r.2.device else tmpfsMount str p r.1)

/-- The roles of `done` are mounted, each once, the persistent ones from their resolved partition. -/
structure Settled (str : Json → Text) (p : Policy) (devices : Devices) (done : List (Role × RoleStatus))
    (t : List Event) : Prop where
  mounts : roleMounts t = done.map (mountOf str p)
  resolved : ∀ r ∈ done, r.2.persistent = true → devices r.1 = some r.2.device
  listed : (∀ role, devices role = none) ∨ ∃ first listing rest,
    t = first ++ [.inventory listing] ++ rest ∧ resolve p listing = .ok devices

section Settled

variable {str : Json → Text} {p : Policy} {devices : Devices} {done : List (Role × RoleStatus)}
  {t l : List Event}

theorem listed_append (h : (∀ role, devices role = none) ∨ ∃ first listing rest,
    t = first ++ [.inventory listing] ++ rest ∧ resolve p listing = .ok devices) :
    (∀ role, devices role = none) ∨ ∃ first listing rest,
      t ++ l = first ++ [.inventory listing] ++ rest ∧ resolve p listing = .ok devices := by
  rcases h with h | ⟨first, listing, rest, rfl, h⟩
  · exact .inl h
  · exact .inr ⟨first, listing, rest ++ l, by simp only [List.append_assoc], h⟩

theorem Settled.append (h : Settled str p devices done t) (hl : roleMounts l = []) :
    Settled str p devices done (t ++ l) :=
  ⟨by rw [roleMounts_append, hl, List.append_nil, h.mounts], h.resolved, listed_append h.listed⟩

theorem Settled.mounted (h : Settled str p devices done t) {role : Role} {status : RoleStatus}
    (hm : Mounted str p devices role status l) :
    Settled str p devices (done ++ [(role, status)]) (t ++ l) := by
  refine ⟨?_, ?_, listed_append h.listed⟩
  · rw [roleMounts_append, h.mounts, hm.mounts, List.map_append]
    rfl
  · intro r hr hp
    rw [List.mem_append, List.mem_singleton] at hr
    rcases hr with hr | rfl
    · exact h.resolved r hr hp
    · exact hm.resolved hp

/-- Before the data role: the settled roles, and all that a format will rest on. -/
structure Progress (str : Json → Text) (p : Policy) (devices : Devices) (done : List (Role × RoleStatus))
    (t : List Event) : Prop where
  settled : Settled str p devices done t
  unformatted : ∀ e ∈ t, isMkfs e = false
  words : ∃ words, Event.cmdline words ∈ t ∧ (maintenanceWord ∈ words → ∀ role, devices role = none)
  story : (∀ role, devices role = none) ∨ ∃ first listing middle,
    t = first ++ [.inventory listing] ++ middle ∧ (∀ e ∈ middle, ¬ IsListing e) ∧
    resolve p listing = .ok devices ∧
    ∀ r ∈ done, r.2.persistent = true → Event.command (partitionMount p r.1 r.2.device) true ∈ middle

theorem Progress.routine {done' : List (Role × RoleStatus)} (h : Progress str p devices done t)
    (hroutine : ∀ e ∈ l, Routine e) (hsettled : Settled str p devices done' (t ++ l))
    (hnew : ∀ r ∈ done', r.2.persistent = true → r ∈ done ∨
      Event.command (partitionMount p r.1 r.2.device) true ∈ l) :
    Progress str p devices done' (t ++ l) := by
  refine ⟨hsettled, ?_, ?_, ?_⟩
  · intro e he
    rcases List.mem_append.mp he with he | he
    · exact h.unformatted e he
    · exact (hroutine e he).not_mkfs
  · obtain ⟨words, hw, hm⟩ := h.words
    exact ⟨words, List.mem_append_left _ hw, hm⟩
  · rcases h.story with hnone | ⟨first, listing, middle, rfl, hmiddle, hresolve, hdone⟩
    · exact .inl hnone
    · refine .inr ⟨first, listing, middle ++ l, by simp only [List.append_assoc], ?_, hresolve, ?_⟩
      · intro e he
        rcases List.mem_append.mp he with he | he
        · exact hmiddle e he
        · exact (hroutine e he).not_listing
      · intro r hr hp
        rcases hnew r hr hp with hr | hr
        · exact List.mem_append_left _ (hdone r hr hp)
        · exact List.mem_append_right _ hr

theorem Progress.enter (h : Progress str p devices done t) (role : Role) :
    Progress str p devices done (t ++ [.ismount (mountPath role) false]) := by
  refine h.routine ?_ (h.settled.append rfl) fun r hr _ => .inl hr
  intro e he
  rw [List.mem_singleton] at he
  rw [he]
  trivial

theorem mem_of_roleMounts {role : Role} {args : List Text} (h : (role, args) ∈ roleMounts l) :
    Event.command args true ∈ l := by
  obtain ⟨e, he, hm⟩ := List.mem_filterMap.mp h
  cases e with
  | command args' ok =>
    cases ok with
    | false => cases hm
    | true =>
      simp only [roleMount?] at hm
      split at hm
      · obtain ⟨role', -, heq⟩ := Option.map_eq_some_iff.mp hm
        cases heq
        exact he
      · cases hm
  | _ => cases hm

theorem Progress.mounted (h : Progress str p devices done t) {role : Role} {status : RoleStatus}
    (hm : Mounted str p devices role status l) :
    Progress str p devices (done ++ [(role, status)]) (t ++ l) := by
  refine h.routine hm.routine (h.settled.mounted hm) ?_
  intro r hr hp
  rw [List.mem_append, List.mem_singleton] at hr
  rcases hr with hr | rfl
  · exact .inl hr
  · right
    have hin : (role, partitionMount p role status.device) ∈ roleMounts l := by
      rw [hm.mounts, if_pos hp]
      exact List.mem_cons_self ..
    exact mem_of_roleMounts hin

theorem Progress.atData {factory state : RoleStatus}
    (h : Progress str p devices [(.factory, factory), (.state, state)] t) : AtData p devices state t := by
  refine ⟨h.unformatted, h.words, ?_⟩
  rcases h.story with hnone | ⟨first, listing, middle, ht, hmiddle, hresolve, hdone⟩
  · exact .inl hnone
  · refine .inr ⟨first, listing, middle, ht, hmiddle, hresolve, fun hs => ?_⟩
    exact ⟨h.settled.resolved (.state, state) (by simp) hs, hdone (.state, state) (by simp) hs⟩

end Settled

/-- What a boot that returns has left behind. -/
structure Booted (str : Json → Text) (p : Policy) (t : List Event) : Prop where
  record : ∃ status devices, Event.status status ∈ t ∧
    roleMounts t = roles.map (fun role => mountOf str p (role, status.role role)) ∧
    (∀ role, (status.role role).persistent = true → devices role = some (status.role role).device) ∧
    ((∀ role, devices role = none) ∨ ∃ first listing rest,
      t = first ++ [.inventory listing] ++ rest ∧ resolve p listing = .ok devices) ∧
    (status.factoryReset = true ↔
      (status.role .state).persistent = true ∧ (status.role .data).persistent = true)

theorem isCmdline_not_mkfs {e : Event} (h : ∃ words, e = .cmdline words) : isMkfs e = false := by
  obtain ⟨words, rfl⟩ := h
  rfl

theorem progress_start {str : Json → Text} {p : Policy} {words : List Text} {devices : Devices}
    {l : List Event} (h : l = [] ∧ devices = (fun _ => none) ∨ Listed p l devices)
    (hm : maintenanceWord ∈ words → devices = fun _ => none) :
    Progress str p devices [] ([.cmdline words] ++ l) := by
  have hlisting : ∀ e ∈ l, IsListing e := by
    rcases h with ⟨rfl, -⟩ | ⟨earlier, t, rfl, hall, -⟩
    · simp
    · intro e he
      rw [List.mem_append, List.mem_singleton] at he
      rcases he with he | rfl
      · exact hall e he
      · exact ⟨t, rfl⟩
  have hmounts : roleMounts ([.cmdline words] ++ l) = [] := by
    unfold roleMounts
    rw [List.filterMap_eq_nil_iff]
    intro e he
    rcases List.mem_cons.mp he with rfl | he
    · rfl
    · obtain ⟨t, rfl⟩ := hlisting e he
      rfl
  have hstory : (∀ role, devices role = none) ∨ ∃ first listing,
      [.cmdline words] ++ l = first ++ [.inventory listing] ∧ resolve p listing = .ok devices := by
    rcases h with ⟨-, rfl⟩ | ⟨earlier, t, rfl, -, hd⟩
    · exact .inl fun _ => rfl
    · exact .inr ⟨[.cmdline words] ++ earlier, t, by simp only [List.append_assoc], hd⟩
  refine ⟨⟨hmounts, by simp, ?_⟩, ?_, ⟨words, List.mem_cons_self .., ?_⟩, ?_⟩
  · rcases hstory with hn | ⟨first, listing, ht, hd⟩
    · exact .inl hn
    · exact .inr ⟨first, listing, [], by rw [ht, List.append_nil], hd⟩
  · intro e he
    rcases List.mem_cons.mp he with rfl | he
    · rfl
    · exact (hlisting e he).not_mkfs
  · intro hw role
    rw [hm hw]
  · rcases hstory with hn | ⟨first, listing, ht, hd⟩
    · exact .inl hn
    · exact .inr ⟨first, listing, [], by rw [ht, List.append_nil], by simp, hd, by simp⟩

/-- The discovery, with the listings it went through. -/
theorem survey_ensures (p : Policy) (words : List Text) (w : Machine) :
    Ensures (Appends IsListing)
      (discover p (if words.contains maintenanceWord then 0 else 10) fun _ => none) w fun devices w' =>
        ∃ l, w'.trace = w.trace ++ l ∧ (l = [] ∧ devices = (fun _ => none) ∨ Listed p l devices) ∧
          (maintenanceWord ∈ words → devices = fun _ => none) := by
  by_cases hm : words.contains maintenanceWord = true
  · rw [if_pos hm]
    exact Ensures.pure appends_refl ⟨[], by simp, .inl ⟨rfl, rfl⟩, fun _ => rfl⟩
  · rw [if_neg hm]
    refine (discover_ensures p 10 _ w).mono ?_
    rintro devices w' ⟨l, hl, ⟨-, h, -⟩ | h⟩
    · cases h
    · exact ⟨l, hl, .inr h, fun hw => absurd (by simpa using hw) hm⟩

theorem booted_of_settled {str : Json → Text} {p : Policy} {devices : Devices}
    {factory state data : RoleStatus} {maintenance resetting : Bool} {t : List Event}
    (h : Settled str p devices [(.factory, factory), (.state, state), (.data, data)] t)
    (hs : Event.status (bootStatus maintenance resetting factory state data) ∈ t) : Booted str p t := by
  refine ⟨bootStatus maintenance resetting factory state data, devices, hs, h.mounts, ?_, h.listed, ?_⟩
  · intro role hp
    cases role with
    | factory => exact h.resolved (.factory, factory) (by simp) hp
    | state => exact h.resolved (.state, state) (by simp) hp
    | data => exact h.resolved (.data, data) (by simp) hp
  · simp [bootStatus]

/-- From the data role on. -/
theorem dataRole_upholds (str : Json → Text) {p : Policy} (hp : Valid p) {maintenance : Bool}
    {devices : Devices} {factory state : RoleStatus} (w : Machine)
    (h : Progress str p devices [(.factory, factory), (.state, state)] w.trace) :
    Upholds (fun w => FormatsOnly p w.trace) (do
      let resetting ← resetData p devices state.persistent
      let data ← mountRole str p maintenance devices .data
      finish p maintenance resetting factory state data : Prog Unit) w fun _ w' =>
        Booted str p w'.trace := by
  refine Upholds.bind (resetData_upholds hp w h.atData) ?_
  rintro resetting w₁ hw₁ ⟨l, hl, hnone⟩
  refine Upholds.bind (upholds_of_ensures (mountRole_ensures str p maintenance devices .data w₁)
    (fun _ => Routine.not_mkfs) hw₁) ?_
  rintro data w₂ hw₂ ⟨l₂, hl₂, hm⟩
  have hsettled : Settled str p devices [(.factory, factory), (.state, state), (.data, data)] w₂.trace := by
    rw [hl₂, hl]
    exact (h.settled.append hnone).mounted hm
  have hfinish := finish_ensures p maintenance resetting factory state data w₂
  refine ⟨(upholds_of_ensures hfinish (fun _ hplain => hplain.1.not_mkfs) hw₂).kept, ?_⟩
  intro _ w₃ h₃
  obtain ⟨l₃, hl₃, hplain⟩ := hfinish.within.result h₃
  have hend : Settled str p devices [(.factory, factory), (.state, state), (.data, data)] w₃.trace := by
    rw [hl₃]
    exact hsettled.append (roleMounts_plain hplain)
  exact booted_of_settled hend (hfinish.post _ _ h₃)

/-- From the roles on. -/
theorem roles_upholds (str : Json → Text) {p : Policy} (hp : Valid p) {maintenance : Bool}
    {devices : Devices} (w : Machine) (h : Progress str p devices [] w.trace) :
    Upholds (fun w => FormatsOnly p w.trace) (do
      enterRole .factory
      let factory ← mountRole str p maintenance devices .factory
      enterRole .state
      let state ← mountRole str p maintenance devices .state
      enterRole .data
      let resetting ← resetData p devices state.persistent
      let data ← mountRole str p maintenance devices .data
      finish p maintenance resetting factory state data : Prog Unit) w fun _ w' =>
        Booted str p w'.trace := by
  have hroutine : ∀ e, Routine e → isMkfs e = false := fun _ => Routine.not_mkfs
  refine Upholds.bind (upholds_of_ensures (enterRole_ensures .factory w) hroutine
    (FormatsOnly.of_none h.unformatted)) ?_
  intro _ w₁ hw₁ h₁
  have p₁ : Progress str p devices [] w₁.trace := by
    rw [h₁]
    exact h.enter .factory
  refine Upholds.bind (upholds_of_ensures (mountRole_ensures str p maintenance devices .factory w₁)
    hroutine hw₁) ?_
  rintro factory w₂ hw₂ ⟨l₂, hl₂, hm₂⟩
  have p₂ : Progress str p devices [(.factory, factory)] w₂.trace := by
    rw [hl₂]
    exact p₁.mounted hm₂
  refine Upholds.bind (upholds_of_ensures (enterRole_ensures .state w₂) hroutine hw₂) ?_
  intro _ w₃ hw₃ h₃
  have p₃ : Progress str p devices [(.factory, factory)] w₃.trace := by
    rw [h₃]
    exact p₂.enter .state
  refine Upholds.bind (upholds_of_ensures (mountRole_ensures str p maintenance devices .state w₃)
    hroutine hw₃) ?_
  rintro state w₄ hw₄ ⟨l₄, hl₄, hm₄⟩
  have p₄ : Progress str p devices [(.factory, factory), (.state, state)] w₄.trace := by
    rw [hl₄]
    exact p₃.mounted hm₄
  refine Upholds.bind (upholds_of_ensures (enterRole_ensures .data w₄) hroutine hw₄) ?_
  intro _ w₅ hw₅ h₅
  have p₅ : Progress str p devices [(.factory, factory), (.state, state)] w₅.trace := by
    rw [h₅]
    exact p₄.enter .data
  exact dataRole_upholds str hp w₅ p₅

theorem prepare_upholds (str : Json → Text) {p : Policy} (hp : Valid p) (w : Machine) (hw : w.trace = []) :
    Upholds (fun w => FormatsOnly p w.trace) (prepare str p) w fun _ w' => Booted str p w'.trace := by
  have hstart : FormatsOnly p w.trace := FormatsOnly.of_none (by simp [hw])
  have hplain : ∀ e, Plain e → isMkfs e = false := fun _ h => h.1.not_mkfs
  refine Upholds.bind (upholds_of_ensures (silent_ensures w) hplain hstart) ?_
  intro initial w₁ hw₁ h₁
  refine Upholds.bind (upholds_of_ensures (check_ensures w₁) hplain hw₁) ?_
  rintro _ w₂ hw₂ ⟨-, rfl⟩
  refine Upholds.bind (upholds_of_ensures (silent_ensures w₂) hplain hw₂) ?_
  intro _ w₃ hw₃ h₃
  have htrace : w₃.trace = [] := by rw [h₃, h₁, hw]
  by_cases ht : p.target.isNone = true
  · rw [if_pos ht]
    exact Upholds.raise hw₃
  · rw [if_neg ht]
    have hask : Ensures (Appends fun e => ∃ words, e = .cmdline words)
        (ask (fun a => .cmdline a.words) (·.words)) w₃ fun words w' =>
          ∃ a : Answer, words = a.words ∧ w'.trace = w₃.trace ++ [.cmdline a.words] :=
      ask_ensures (fun a => ⟨a.words, rfl⟩) w₃
    refine Upholds.bind (upholds_of_ensures hask (fun _ => isCmdline_not_mkfs) hw₃) ?_
    rintro words w₄ hw₄ ⟨a, rfl, h₄⟩
    refine Upholds.bind (upholds_of_ensures (survey_ensures p a.words w₄) (fun _ => IsListing.not_mkfs) hw₄) ?_
    rintro devices w₅ hw₅ ⟨l, hl, hlisted, hm⟩
    have hprogress : Progress str p devices [] w₅.trace := by
      rw [hl, h₄, htrace]
      exact progress_start hlisted hm
    exact roles_upholds str hp w₅ hprogress

/-- The boot preparation formats only what a persistent reset intent names, and a boot that returns
has each role mounted once, as its status says. -/
theorem prepare_formats_only_by_intent (str : Json → Text) (document : Json) (p : Policy)
    (h : validate document = .ok p) (answers : List Answer) :
    FormatsOnly p (prepare str p { answers := answers }).2.trace ∧
      ∀ u w', prepare str p { answers := answers } = (.ret u, w') →
        Booted str p w'.trace ∧ ∀ role, role ≠ .state → text ",ro" <:+ tmpfsOptions str p role := by
  have hu := prepare_upholds str (validate_ok h) { answers := answers } rfl
  refine ⟨hu.kept, ?_⟩
  intro u w' hr
  refine ⟨hu.post u w' hr, ?_⟩
  intro role hrole
  unfold tmpfsOptions
  rw [if_neg hrole, if_neg hrole]
  exact List.suffix_append _ _

/-! ### A boot with a reset -/

namespace Sample

def spec (role : Role) (size : ℤ) : Text × Json :=
  (roleName role, .obj [(text "label", .str (text "msa-" ++ roleName role)),
    (text "mount", .str (mountPath role)), (text "size_mib", .int size),
    (text "readonly", .bool (role == .factory))])

def document : Json := .obj
  [(text "schema_version", .int 1), (text "target", .str (text "test")),
    (text "disk", .str (text "/dev/sda")), (text "state_tmpfs_mib", .int 32),
    (text "reset_journal", .str (text "mnc-system/state.json")),
    (text "settings", .str (text "msa/settings")), (text "product_info", .str (text "productInfo.json")),
    (text "legacy_settings", .str (text "/data/mnc/settings")),
    (text "legacy_product_info", .str (text "/data/productInfo.json")),
    (text "quiesce_units", .arr [.str (text "settings.service")]),
    (text "roles", .obj [spec .factory 16, spec .state 256, spec .data 0])]

def policy : Policy where
  disk := text "/dev/sda"
  role := fun role => match role with
    | .factory => ⟨text "msa-factory", 16, true⟩
    | .state => ⟨text "msa-state", 256, false⟩
    | .data => ⟨text "msa-data", 0, false⟩
  order := [.factory, .state, .data]
  stateTmpfsMib := .int 32
  settings := text "msa/settings"
  productInfo := text "productInfo.json"
  resetJournal := text "mnc-system/state.json"
  journalDirectory := text "log/journal"
  runtimeRoot := text "/run/mnc"
  target := some (.str (text "test"))

def partition (role : Role) (index : ℕ) : Node :=
  .node (text "/dev/sda" ++ [48 + index]) (text "part") (some (text "msa-" ++ roleName role))
    (some (text "ext4")) (some (text "/dev/sda")) [none] []

def listing : Inventory where
  disks := [.node (text "/dev/sda") (text "disk") none none none [none]
    [partition .factory 1, partition .state 2, partition .data 3]]
  named := by decide

def quiet : Answer := {}

/-- The three partitions, a journal with the intent, and a machine identity. -/
def answers : List Answer :=
  List.replicate 3 quiet ++ [{ listing := listing }] ++ List.replicate 9 quiet ++
    [{ content := some (.obj [(text "reset_intent", .bool true)]) }, { listing := listing }] ++
    List.replicate 24 quiet ++ [{ line := List.replicate 32 97 }]

end Sample

theorem prepare_formats_only_by_intent_reset :
    validate Sample.document = .ok Sample.policy ∧
      ((prepare (fun _ => []) Sample.policy { answers := Sample.answers }).2.trace.filter isMkfs).length = 1 ∧
      FormatsOnly Sample.policy (prepare (fun _ => []) Sample.policy { answers := Sample.answers }).2.trace ∧
      Booted (fun _ => []) Sample.policy
        (prepare (fun _ => []) Sample.policy { answers := Sample.answers }).2.trace := by
  have hvalid : validate Sample.document = .ok Sample.policy := rfl
  have h := prepare_formats_only_by_intent (fun _ => []) Sample.document Sample.policy hvalid Sample.answers
  have hreturns : (prepare (fun _ => []) Sample.policy { answers := Sample.answers }).1 = .ret () := by
    decide
  refine ⟨hvalid, by decide, h.1, ?_⟩
  exact (h.2 () _ (Prod.ext hreturns rfl)).1

end Monutchee.Storage.Boot
