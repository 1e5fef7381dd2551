import Monutchee.Lib.Files
import Monutchee.System.Erasure
import Monutchee.System.Factory
import Monutchee.System.NetworkFile

/-!
# The files of the clock policy (clock_config.cpp)

`writeClockPolicy` on a tree of files below the runtime directory: three markers that keep the
services of the other modes off, the drop-in of timesyncd and one drop-in for each port. Some
files are always written, some only when they differ and some are removed when they are there;
what is left depends on the profile and the preferences alone. Permissions are left out, since
nothing here reads them, and the program makes no links below this directory.
-/

namespace Monutchee.System.ClockFiles
open Lib Lib.Act Lib.Files Lib.Ini Validation Native

/-! ### Operations on files -/

inductive Node where
  | dir
  | file (content : Bytes)
  deriving DecidableEq, Repr

abbrev FileTree := Tree Bytes Node

inductive FileOp where
  | look (path : List Bytes)
  | read (path : List Bytes)
  | write (path : List Bytes) (content : Bytes)
  | remove (path : List Bytes)
  deriving DecidableEq, Repr

/-- The operations that fail, each with what it leaves of the tree, and the error that a path
which cannot be written gives. -/
structure Disk where
  fault : FileOp → FileTree → Option (Error × FileTree)
  trouble : Error

def Disk.sound : Disk := ⟨fun _ _ => none, ⟨.applyFailed, ascii "replace state: Is a directory"⟩⟩

abbrev Files := Act FileTree Error

def perform {α : Type} (d : Disk) (op : FileOp) (m : Files α) : Files α := fun T =>
  match d.fault op T with
  | some (e, T') => (.raise e, T')
  | none => m T

def pathText (path : List Bytes) : Bytes := path.flatMap (47 :: ·)

/-- Whether create_directories and rename can put a file at a path. -/
def blocked (T : FileTree) (path : List Bytes) : Bool :=
  T.find path == some .dir ||
    (ancestors path).any fun q => T.find q != none && T.find q != some .dir

def putFile (T : FileTree) (path : List Bytes) (content : Bytes) : FileTree :=
  T.put .dir path (.file content)

/-- fs::exists; a file among the directories of a path leaves nothing below it. -/
def present (d : Disk) (path : List Bytes) : Files Bool :=
  perform d (.look path) (gets fun T => (T.find path).isSome)

/-- readFile (storage.cpp:30-45): a directory opens, but does not read. -/
def readFile (d : Disk) (path : List Bytes) : Files Bytes :=
  perform d (.read path) fun T =>
    match T.find path with
    | some .dir => (.raise ⟨.unavailable, ascii "cannot finish reading " ++ pathText path⟩, T)
    | some (.file content) => lift (System.readFile (fun _ => some content) (pathText path)) T
    | none => lift (System.readFile (fun _ => none) (pathText path)) T

/-- atomicWrite (storage.cpp:46-70). -/
def atomicWrite (d : Disk) (path : List Bytes) (content : Bytes) : Files Unit :=
  perform d (.write path content) fun T =>
    if blocked T path then (.raise d.trouble, T) else (.ret (), putFile T path content)

/-- durableRemove (storage.cpp:71-75), with all that is below the path. -/
def durableRemove (d : Disk) (path : List Bytes) : Files Unit :=
  perform d (.remove path) (modify fun T => T.prune path)

/-! ### writeClockPolicy (clock_config.cpp:6-57) -/

def sameFile (d : Disk) (path : List Bytes) (value : Bytes) : Files Bool := do
  if ← present d path then
    let content ← readFile d path
    return content == value
  else return false

def readableWrite (d : Disk) (path : List Bytes) (value : Bytes) : Files Bool := do
  if ← sameFile d path value then return false
  else
    atomicWrite d path value
    return true

def markerPath (runtime : List Bytes) (p : Product) (mode : Bytes) : List Bytes :=
  resolve true runtime [filename p.runtimeRoot, ascii "system", mode ++ ascii "-disabled"]

def serversPath (runtime : List Bytes) : List Bytes :=
  runtime ++ [ascii "systemd", ascii "timesyncd.conf.d", ascii "90-mnc-time.conf"]

def portPath (runtime : List Bytes) (port : Bytes) : List Bytes :=
  runtime ++ [ascii "systemd", ascii "network", ascii "10-mnc-" ++ port ++ ascii ".network.d",
    ascii "50-mnc-time.conf"]

def modes : List Bytes := [ascii "ntp", ascii "ptp", ascii "irig"]

def disabledText : Bytes := ascii "disabled\n"

def writeMarker (d : Disk) (runtime : List Bytes) (p : Product) (t : TimePreferences)
    (mode : Bytes) : Files Unit :=
  if t.synchronization = mode then durableRemove d (markerPath runtime p mode)
  else atomicWrite d (markerPath runtime p mode) disabledText

def writePort (d : Disk) (runtime : List Bytes) (t : TimePreferences) (port : Bytes) : Files Bool :=
  if !t.ntpServers.isEmpty then readableWrite d (portPath runtime port) portText
  else do
    if ← present d (portPath runtime port) then
      durableRemove d (portPath runtime port)
      return true
    else return false

def writePorts (d : Disk) (runtime : List Bytes) (t : TimePreferences) : List Bytes → Files Bool
  | [] => pure false
  | port :: ports => do
    lift (check (validInterfaceName port) "invalid policy interface")
    let here ← writePort d runtime t port
    let others ← writePorts d runtime t ports
    return here || others

def writeClockPolicy (d : Disk) (runtime : List Bytes) (p : Product) (t : TimePreferences) :
    Files ClockPolicyChanges := do
  -- Configuration injection is rejected even at boot.
  lift (validate { time := t })
  lift (checkIrig p t)
  each (writeMarker d runtime p t) modes
  let servers ← readableWrite d (serversPath runtime) (renderServers t)
  let network ← writePorts d runtime t p.interfaceNames
  return { servers := servers, network := network }

/-! ### One file -/

/-- No file among the directories of a path. -/
def Open (T : FileTree) (path : List Bytes) : Prop :=
  ∀ q ∈ ancestors path, T.find q = none ∨ T.find q = some .dir

theorem blocked_eq_false {T : FileTree} {path : List Bytes} :
    blocked T path = false ↔ T.find path ≠ some .dir ∧ Open T path := by
  simp only [blocked, Open, Bool.or_eq_false_iff, List.any_eq_false, Bool.and_eq_true, bne_iff_ne,
    not_and, ne_eq, not_not, beq_eq_false_iff_ne]
  constructor
  · rintro ⟨hdir, hall⟩
    refine ⟨hdir, ?_⟩
    intro q hq
    by_cases hnone : T.find q = none
    · exact .inl hnone
    · exact .inr (hall q hq hnone)
  · rintro ⟨hdir, hall⟩
    refine ⟨hdir, ?_⟩
    intro q hq hnone
    exact (hall q hq).resolve_left hnone

/-- A step between two trees that leaves a node at a path, and no other path touched that parts
from it. -/
structure Settles (path : List Bytes) (node : Option Node) (T T' : FileTree) : Prop where
  here : T'.find path = node
  elsewhere : ∀ q, Apart q path → T'.find q = T.find q
  opened : ∀ q, Apart q path → Open T q → Open T' q

theorem Settles.same {path : List Bytes} {node : Option Node} {T : FileTree}
    (h : T.find path = node) : Settles path node T T :=
  ⟨h, fun _ _ => rfl, fun _ _ hq => hq⟩

theorem find_putFile {T : FileTree} {path q : List Bytes} {content : Bytes} :
    (putFile T path content).find q =
      if q = path then some (.file content)
      else (T.find q).or (if q ∈ ancestors path then some .dir else none) := by
  rw [putFile, Tree.find_put]
  congr

/-- A new directory is open, and so is one that was there. -/
theorem Open.putFile {T : FileTree} {path q : List Bytes} {content : Bytes} (hq : path ∉ ancestors q)
    (h : Open T q) : Open (putFile T path content) q := by
  intro a ha
  rw [find_putFile]
  have hne : a ≠ path := fun he => hq (he ▸ ha)
  rw [if_neg hne]
  rcases h a ha with hn | hd
  · rw [hn, Option.none_or]
    split
    · exact .inr rfl
    · exact .inl rfl
  · exact .inr (by rw [hd]; rfl)

theorem settles_putFile (T : FileTree) (path : List Bytes) (content : Bytes) :
    Settles path (some (.file content)) T (putFile T path content) where
  here := by rw [find_putFile, if_pos rfl]
  elsewhere := by
    intro q hq
    rw [find_putFile, if_neg hq.ne, if_neg hq.not_mem_ancestors, Option.or_none]
  opened := fun q hq h => h.putFile hq.symm.not_mem_ancestors

theorem settles_prune (T : FileTree) (path : List Bytes) : Settles path none T (T.prune path) where
  here := by rw [Tree.find_prune, if_pos (List.prefix_refl path)]
  elsewhere := by
    intro q hq
    rw [Tree.find_prune, if_neg hq.symm.not_prefix]
  opened := by
    intro q hq h a ha
    rw [Tree.find_prune]
    split
    · exact .inl rfl
    · exact h a ha

/-! ### The operations -/

theorem perform_ret {α : Type} {d : Disk} {op : FileOp} {m : Files α} {T T' : FileTree} {a : α}
    (h : perform d op m T = (.ret a, T')) : m T = (.ret a, T') := by
  unfold perform at h
  cases hf : d.fault op T with
  | none =>
    rw [hf] at h
    exact h
  | some e =>
    rw [hf] at h
    simp at h

theorem perform_of_sound {α : Type} {d : Disk} (hd : ∀ op T, d.fault op T = none) (op : FileOp)
    (m : Files α) (T : FileTree) : perform d op m T = m T := by
  rw [perform, hd op T]

theorem present_ret {d : Disk} {path : List Bytes} {T T' : FileTree} {b : Bool}
    (h : present d path T = (.ret b, T')) : T' = T ∧ (b = true ↔ T.find path ≠ none) := by
  have hget := perform_ret h
  simp only [gets_apply, Prod.mk.injEq, Outcome.ret.injEq] at hget
  obtain ⟨rfl, rfl⟩ := hget
  exact ⟨rfl, by rw [Option.isSome_iff_ne_none]⟩

theorem readFile_ret {d : Disk} {path : List Bytes} {T T' : FileTree} {content : Bytes}
    (h : readFile d path T = (.ret content, T')) : T' = T ∧ T.find path = some (.file content) := by
  have hread := perform_ret h
  cases hn : T.find path with
  | none => simp [hn, System.readFile] at hread
  | some n =>
    cases n with
    | dir => simp [hn] at hread
    | file v =>
      simp only [hn, System.readFile] at hread
      split at hread
      · simp at hread
      · simp only [lift_ok, Prod.mk.injEq, Outcome.ret.injEq] at hread
        obtain ⟨rfl, rfl⟩ := hread
        exact ⟨rfl, rfl⟩

theorem atomicWrite_ret {d : Disk} {path : List Bytes} {content : Bytes} {T T' : FileTree} {u : Unit}
    (h : atomicWrite d path content T = (.ret u, T')) :
    blocked T path = false ∧ T' = putFile T path content := by
  have hwrite := perform_ret h
  cases hb : blocked T path with
  | true => simp [hb] at hwrite
  | false =>
    simp only [hb, Bool.false_eq_true, if_false, Prod.mk.injEq, true_and] at hwrite
    exact ⟨rfl, hwrite.symm⟩

theorem durableRemove_ret {d : Disk} {path : List Bytes} {T T' : FileTree} {u : Unit}
    (h : durableRemove d path T = (.ret u, T')) : T' = T.prune path := by
  have hremove := perform_ret h
  simp only [modify_apply, Prod.mk.injEq, true_and] at hremove
  exact hremove.symm

theorem sameFile_ret {d : Disk} {path : List Bytes} {value : Bytes} {T T' : FileTree} {b : Bool}
    (h : sameFile d path value T = (.ret b, T')) :
    T' = T ∧ (b = true ↔ T.find path = some (.file value)) := by
  unfold sameFile at h
  obtain ⟨there, T₁, hthere, h⟩ := bind_ret h
  obtain ⟨rfl, hiff⟩ := present_ret hthere
  cases there with
  | false =>
    simp only [Bool.false_eq_true, if_false, pure_apply, Prod.mk.injEq, Outcome.ret.injEq] at h
    obtain ⟨rfl, rfl⟩ := h
    have hnone : T₁.find path = none := by simpa using hiff
    simp [hnone]
  | true =>
    rw [if_pos rfl] at h
    obtain ⟨content, T₂, hread, hsame⟩ := bind_ret h
    obtain ⟨rfl, hfound⟩ := readFile_ret hread
    simp only [pure_apply, Prod.mk.injEq, Outcome.ret.injEq] at hsame
    obtain ⟨rfl, rfl⟩ := hsame
    simp [hfound]

/-- `readableWrite` leaves the value, and says whether it was there before. -/
theorem readableWrite_ret {d : Disk} {path : List Bytes} {value : Bytes} {T T' : FileTree} {b : Bool}
    (h : readableWrite d path value T = (.ret b, T')) :
    Settles path (some (.file value)) T T' ∧ (b = true ↔ T.find path ≠ some (.file value)) := by
  unfold readableWrite at h
  obtain ⟨same, T₁, hsame, h⟩ := bind_ret h
  obtain ⟨rfl, hiff⟩ := sameFile_ret hsame
  cases same with
  | true =>
    simp only [if_true, pure_apply, Prod.mk.injEq, Outcome.ret.injEq] at h
    obtain ⟨rfl, rfl⟩ := h
    have hfound := hiff.mp rfl
    exact ⟨Settles.same hfound, by simp [hfound]⟩
  | false =>
    rw [if_neg Bool.false_ne_true] at h
    obtain ⟨u, T₂, hwrite, h⟩ := bind_ret h
    obtain ⟨-, rfl⟩ := atomicWrite_ret hwrite
    simp only [pure_apply, Prod.mk.injEq, Outcome.ret.injEq] at h
    obtain ⟨rfl, rfl⟩ := h
    have hdiffers : T₁.find path ≠ some (.file value) := by simpa using hiff
    exact ⟨settles_putFile T₁ path value, by simp [hdiffers]⟩

/-! ### The files of a policy -/

inductive Target where
  | marker (mode : Bytes)
  | servers
  | port (name : Bytes)
  deriving DecidableEq, Repr

namespace Target

def path (runtime : List Bytes) (p : Product) : Target → List Bytes
  | marker mode => markerPath runtime p mode
  | servers => serversPath runtime
  | port name => portPath runtime name

/-- What a file is to hold: a word of the preferences alone. -/
def wanted (t : TimePreferences) : Target → Option Bytes
  | marker mode => if t.synchronization = mode then none else some disabledText
  | servers => some (renderServers t)
  | port _ => portDropIn t

def node (t : TimePreferences) (x : Target) : Option Node := (x.wanted t).map Node.file

end Target

def targets (p : Product) : List Target :=
  modes.map Target.marker ++ Target.servers :: p.interfaceNames.map Target.port

/-- The names of a marker: two behind the directory that the runtime root names. -/
theorem markerPath_eq (runtime : List Bytes) (p : Product) (mode : Bytes) :
    markerPath runtime p mode =
      resolve true runtime [filename p.runtimeRoot] ++ [ascii "system", mode ++ ascii "-disabled"] := by
  have hlong : ∀ word : Bytes, word.length < 9 → mode ++ ascii "-disabled" ≠ word := by
    intro word hword he
    have hlength := congrArg List.length he
    have hend : (ascii "-disabled").length = 9 := by decide
    rw [List.length_append, hend] at hlength
    omega
  have hname : ∀ done, resolve true done [ascii "system", mode ++ ascii "-disabled"] =
      done ++ [ascii "system", mode ++ ascii "-disabled"] := by
    intro done
    have h₁ : ascii "system" ≠ [] ∧ ascii "system" ≠ ascii "." ∧ ascii "system" ≠ ascii ".." := by decide
    have h₂ := hlong [] (by decide)
    have h₃ := hlong (ascii ".") (by decide)
    have h₄ := hlong (ascii "..") (by decide)
    simp only [resolve, h₁, h₂, h₃, h₄, or_self, if_false, List.append_assoc, List.singleton_append]
  have happend := resolve_append true runtime [filename p.runtimeRoot]
    [ascii "system", mode ++ ascii "-disabled"]
  rw [hname] at happend
  exact happend

/-- A single name leads nowhere, up or down. -/
theorem resolve_single (runtime : List Bytes) (name : Bytes) :
    resolve true runtime [name] = runtime ∨
      (∃ last, runtime = resolve true runtime [name] ++ [last]) ∨
        resolve true runtime [name] = runtime ++ [name] := by
  simp only [resolve, if_true]
  by_cases hdot : name = [] ∨ name = ascii "."
  · rw [if_pos hdot]
    exact .inl rfl
  · rw [if_neg hdot]
    by_cases hup : name = ascii ".."
    · rw [if_pos hup]
      by_cases htop : runtime = [] ∨ runtime.getLast? = some (ascii "..")
      · rw [if_pos htop]
        exact .inl rfl
      · rw [if_neg htop]
        rw [not_or] at htop
        exact .inr (.inl ⟨_, (List.dropLast_append_getLast htop.1).symm⟩)
    · rw [if_neg hup]
      exact .inr (.inr rfl)

/-- A marker and a drop-in part, wherever the runtime root leads. -/
theorem marker_apart (runtime : List Bytes) (p : Product) (mode : Bytes) {x : Bytes} {rest : List Bytes}
    (hx : x ≠ ascii "system") :
    Apart (markerPath runtime p mode) (runtime ++ ascii "systemd" :: x :: rest) := by
  have hsystem : ascii "system" ≠ ascii "systemd" := by decide
  have hmode : mode ++ ascii "-disabled" ≠ ascii "systemd" := by
    intro he
    have hlength := congrArg List.length he
    have h₁ : (ascii "-disabled").length = 9 := by decide
    have h₂ : (ascii "systemd").length = 7 := by decide
    rw [List.length_append, h₁, h₂] at hlength
    omega
  rw [markerPath_eq]
  rcases resolve_single runtime (filename p.runtimeRoot) with he | ⟨last, hlast⟩ | he
  · rw [he]
    exact ⟨runtime, _, _, _, _, hsystem, rfl, rfl⟩
  · generalize resolve true runtime [filename p.runtimeRoot] = base at hlast
    subst hlast
    by_cases hs : last = ascii "system"
    · subst hs
      exact ⟨base ++ [ascii "system"], _, _, [], x :: rest, hmode, by simp, by simp⟩
    · exact ⟨base, _, _, [mode ++ ascii "-disabled"], ascii "systemd" :: x :: rest, Ne.symm hs, rfl,
        by simp⟩
  · rw [he]
    by_cases hs : filename p.runtimeRoot = ascii "systemd"
    · rw [hs]
      exact ⟨runtime ++ [ascii "systemd"], _, _, [mode ++ ascii "-disabled"], rest, hx.symm, by simp,
        by simp⟩
    · exact ⟨runtime, _, _, [ascii "system", mode ++ ascii "-disabled"], x :: rest, hs, by simp, rfl⟩

/-- The files of a policy are all different, and none lies below another. -/
theorem path_apart (runtime : List Bytes) (p : Product) {x y : Target} (h : x ≠ y) :
    Apart (x.path runtime p) (y.path runtime p) := by
  have hservers : ascii "timesyncd.conf.d" ≠ ascii "system" := by decide
  have hport : ascii "network" ≠ ascii "system" := by decide
  have hkind : ascii "timesyncd.conf.d" ≠ ascii "network" := by decide
  have hdrop : ∀ name, Apart (serversPath runtime) (portPath runtime name) := by
    intro name
    exact ⟨runtime ++ [ascii "systemd"], _, _, [ascii "90-mnc-time.conf"],
      [ascii "10-mnc-" ++ name ++ ascii ".network.d", ascii "50-mnc-time.conf"], hkind,
      by simp [serversPath], by simp [portPath]⟩
  cases x with
  | marker mode =>
    cases y with
    | marker mode' =>
      have hne : mode ++ ascii "-disabled" ≠ mode' ++ ascii "-disabled" := by
        intro he
        exact h (by rw [List.append_cancel_right he])
      show Apart (markerPath runtime p mode) (markerPath runtime p mode')
      rw [markerPath_eq, markerPath_eq]
      exact ⟨resolve true runtime [filename p.runtimeRoot] ++ [ascii "system"], _, _, [], [], hne,
        by simp, by simp⟩
    | servers => exact marker_apart runtime p mode hservers
    | port name => exact marker_apart runtime p mode hport
  | servers =>
    cases y with
    | marker mode => exact (marker_apart runtime p mode hservers).symm
    | servers => exact absurd rfl h
    | port name => exact hdrop name
  | port name =>
    cases y with
    | marker mode => exact (marker_apart runtime p mode hport).symm
    | servers => exact (hdrop name).symm
    | port name' =>
      have hne : ascii "10-mnc-" ++ name ++ ascii ".network.d" ≠
          ascii "10-mnc-" ++ name' ++ ascii ".network.d" := by
        intro he
        exact h (by rw [List.append_cancel_left (List.append_cancel_right he)])
      exact ⟨runtime ++ [ascii "systemd", ascii "network"], _, _, [ascii "50-mnc-time.conf"],
        [ascii "50-mnc-time.conf"], hne, by simp [Target.path, portPath], by simp [Target.path, portPath]⟩

/-! ### The runs -/

/-- A file is as it is to be, and a marker that is to be there can be written again. -/
structure Held (runtime : List Bytes) (p : Product) (t : TimePreferences) (x : Target)
    (T : FileTree) : Prop where
  found : T.find (x.path runtime p) = x.node t
  opened : ∀ mode, x = .marker mode → x.wanted t ≠ none → Open T (x.path runtime p)

/-- What a part of the run that is about the files `xs` does to the files of the policy. -/
structure Handles (runtime : List Bytes) (p : Product) (t : TimePreferences) (xs : List Target)
    (T T' : FileTree) : Prop where
  held : ∀ x ∈ xs, Held runtime p t x T'
  kept : ∀ y, Held runtime p t y T → Held runtime p t y T'
  others : ∀ y ∉ xs, T'.find (y.path runtime p) = T.find (y.path runtime p)

variable {d : Disk} {runtime : List Bytes} {p : Product} {t : TimePreferences} {T T' T'' : FileTree}

theorem Handles.nil : Handles runtime p t [] T T where
  held := by simp
  kept := fun _ hy => hy
  others := fun _ _ => rfl

theorem Handles.append {xs ys : List Target} (hx : Handles runtime p t xs T T')
    (hy : Handles runtime p t ys T' T'') : Handles runtime p t (xs ++ ys) T T'' where
  held := by
    intro x hm
    rcases List.mem_append.mp hm with hm | hm
    · exact hy.kept x (hx.held x hm)
    · exact hy.held x hm
  kept := fun y h => hy.kept y (hx.kept y h)
  others := by
    intro y hm
    rw [List.mem_append, not_or] at hm
    rw [hy.others y hm.2, hx.others y hm.1]

theorem Handles.single {x : Target} (h : Settles (x.path runtime p) (x.node t) T T')
    (hopen : ∀ mode, x = .marker mode → x.wanted t ≠ none → Open T' (x.path runtime p)) :
    Handles runtime p t [x] T T' := by
  have hheld : Held runtime p t x T' := ⟨h.here, hopen⟩
  refine ⟨?_, ?_, ?_⟩
  · intro y hy
    rw [List.mem_singleton.mp hy]
    exact hheld
  · intro y hy
    by_cases he : y = x
    · rw [he]
      exact hheld
    · have hapart := path_apart runtime p he
      refine ⟨(h.elsewhere _ hapart).trans hy.found, ?_⟩
      intro mode hmode hwanted
      exact h.opened _ hapart (hy.opened mode hmode hwanted)
  · intro y hy
    rw [List.mem_singleton] at hy
    exact h.elsewhere _ (path_apart runtime p hy)

theorem self_not_mem_ancestors {path : List Bytes} : path ∉ ancestors path := by
  intro h
  exact (mem_ancestors.mp h).2.2 rfl

theorem writeMarker_ret {mode : Bytes} {u : Unit}
    (h : writeMarker d runtime p t mode T = (.ret u, T')) :
    Handles runtime p t [.marker mode] T T' := by
  unfold writeMarker at h
  by_cases hmode : t.synchronization = mode
  · rw [if_pos hmode] at h
    have hremoved := durableRemove_ret h
    subst hremoved
    have hwanted : (Target.marker mode).wanted t = none := if_pos hmode
    apply Handles.single
    · rw [Target.node, hwanted]
      exact settles_prune T _
    · intro _ _ hsome
      exact absurd hwanted hsome
  · rw [if_neg hmode] at h
    obtain ⟨hfree, hwritten⟩ := atomicWrite_ret h
    subst hwritten
    have hwanted : (Target.marker mode).wanted t = some disabledText := if_neg hmode
    apply Handles.single
    · rw [Target.node, hwanted]
      exact settles_putFile T _ disabledText
    · intro _ _ _
      exact (blocked_eq_false.mp hfree).2.putFile self_not_mem_ancestors

theorem writeMarkers_ret {ms : List Bytes} {u : Unit}
    (h : each (writeMarker d runtime p t) ms T = (.ret u, T')) :
    Handles runtime p t (ms.map .marker) T T' := by
  induction ms generalizing T with
  | nil =>
    have he : T = T' := congrArg Prod.snd h
    rw [← he]
    exact Handles.nil
  | cons mode ms ih =>
    obtain ⟨_, T₁, hhere, hothers⟩ := bind_ret h
    exact (writeMarker_ret hhere).append (ih hothers)

theorem writeServers_ret {b : Bool}
    (h : readableWrite d (serversPath runtime) (renderServers t) T = (.ret b, T')) :
    Handles runtime p t [.servers] T T' ∧
      (b = true ↔ T.find (serversPath runtime) ≠ Target.node t .servers) := by
  obtain ⟨hsettles, hflag⟩ := readableWrite_ret h
  refine ⟨Handles.single hsettles ?_, hflag⟩
  intro mode he
  cases he

theorem writePort_ret {port : Bytes} {b : Bool}
    (h : writePort d runtime t port T = (.ret b, T')) :
    Handles runtime p t [.port port] T T' ∧
      (b = true ↔ T.find (portPath runtime port) ≠ Target.node t (.port port)) := by
  have hsingle : Settles (portPath runtime port) (Target.node t (.port port)) T T' →
      Handles runtime p t [.port port] T T' := by
    intro hs
    apply @Handles.single runtime p t T T' (.port port) hs
    intro mode he
    cases he
  have hnode : Target.node t (.port port) =
      if t.ntpServers.isEmpty then none else some (.file portText) := by
    simp only [Target.node, Target.wanted, portDropIn]
    split
    · rfl
    · rfl
  unfold writePort at h
  cases hempty : t.ntpServers.isEmpty with
  | false =>
    rw [hempty] at h hnode
    obtain ⟨hsettles, hflag⟩ := readableWrite_ret h
    rw [if_neg Bool.false_ne_true] at hnode
    rw [hnode] at hsingle ⊢
    exact ⟨hsingle hsettles, hflag⟩
  | true =>
    rw [hempty] at h hnode
    rw [if_pos rfl] at hnode
    rw [hnode] at hsingle ⊢
    rw [if_neg (by simp)] at h
    obtain ⟨there, T₁, hthere, hrest⟩ := bind_ret h
    obtain ⟨rfl, hiff⟩ := present_ret hthere
    cases there with
    | false =>
      simp only [Bool.false_eq_true, if_false, pure_apply, Prod.mk.injEq, Outcome.ret.injEq] at hrest
      obtain ⟨rfl, rfl⟩ := hrest
      have hnone : T₁.find (portPath runtime port) = none := by simpa using hiff
      exact ⟨hsingle (Settles.same hnone), by simp [hnone]⟩
    | true =>
      rw [if_pos rfl] at hrest
      obtain ⟨_, T₂, hremove, hlast⟩ := bind_ret hrest
      have hremoved := durableRemove_ret hremove
      subst hremoved
      simp only [pure_apply, Prod.mk.injEq, Outcome.ret.injEq] at hlast
      obtain ⟨rfl, rfl⟩ := hlast
      exact ⟨hsingle (settles_prune T₁ _), by simpa using hiff⟩

/-- The loop over the ports: every name was valid, and the flag tells of a drop-in that was not
as it is now. -/
theorem writePorts_ret {ports : List Bytes} {b : Bool}
    (h : writePorts d runtime t ports T = (.ret b, T')) :
    (∀ port ∈ ports, validInterfaceName port = true) ∧
      Handles runtime p t (ports.map .port) T T' ∧
      (b = true ↔ ∃ port ∈ ports, T.find (portPath runtime port) ≠ Target.node t (.port port)) := by
  induction ports generalizing T b with
  | nil =>
    unfold writePorts at h
    simp only [pure_apply, Prod.mk.injEq, Outcome.ret.injEq] at h
    obtain ⟨rfl, rfl⟩ := h
    exact ⟨by simp, Handles.nil, by simp⟩
  | cons port ports ih =>
    unfold writePorts at h
    obtain ⟨_, T₁, hcheck, hafter⟩ := bind_ret h
    obtain ⟨hvalid, rfl⟩ := lift_ret hcheck
    obtain ⟨here, T₂, hhere, hafter⟩ := bind_ret hafter
    obtain ⟨others, T₃, hothers, hlast⟩ := bind_ret hafter
    simp only [pure_apply, Prod.mk.injEq, Outcome.ret.injEq] at hlast
    obtain ⟨rfl, rfl⟩ := hlast
    obtain ⟨hfirst, hflag⟩ := writePort_ret (p := p) hhere
    obtain ⟨hnames, hrest, hflags⟩ := ih hothers
    refine ⟨?_, hfirst.append hrest, ?_⟩
    · intro x hx
      rcases List.mem_cons.mp hx with rfl | hx
      · exact check_ok.mp hvalid
      · exact hnames x hx
    · -- A name that occurs again finds what its first round left.
      have hagain : ∀ x, x ≠ port → T₂.find (portPath runtime x) = T₁.find (portPath runtime x) := by
        intro x hx
        exact hfirst.others (.port x) (by simpa using hx)
      rw [Bool.or_eq_true, hflag, hflags]
      constructor
      · rintro (hd | ⟨x, hx, hd⟩)
        · exact ⟨port, List.mem_cons_self .., hd⟩
        · by_cases he : x = port
          · subst he
            exact absurd (hfirst.held (.port x) (List.mem_cons_self ..)).found hd
          · rw [hagain x he] at hd
            exact ⟨x, List.mem_cons_of_mem _ hx, hd⟩
      · rintro ⟨x, hx, hd⟩
        by_cases he : x = port
        · subst he
          exact .inl hd
        · have hx' : x ∈ ports := (List.mem_cons.mp hx).resolve_left he
          rw [← hagain x he] at hd
          exact .inr ⟨x, hx', hd⟩

/-! ### The run again -/

theorem present_sound (hd : ∀ op T, d.fault op T = none) (path : List Bytes) :
    present d path T = (.ret (T.find path).isSome, T) :=
  (perform_of_sound hd _ _ T).trans rfl

theorem readableWrite_again {path : List Bytes} {value : Bytes} (hd : ∀ op T, d.fault op T = none)
    (hfound : T.find path = some (.file value)) (hsize : value.length ≤ 1048576) :
    readableWrite d path value T = (.ret false, T) := by
  have hread : readFile d path T = (.ret value, T) := by
    have hfit : ¬ 1048576 < value.length := by omega
    apply (perform_of_sound hd _ _ T).trans
    simp [hfound, System.readFile, hfit]
  have hthere : present d path T = (.ret true, T) := by
    rw [present_sound hd, hfound]
    rfl
  have hsame : sameFile d path value T = (.ret true, T) := by
    rw [sameFile, bind_of_ret hthere, if_pos rfl, bind_of_ret hread]
    simp
  rw [readableWrite, bind_of_ret hsame, if_pos rfl]
  rfl

theorem writeMarker_again {mode : Bytes} (hd : ∀ op T, d.fault op T = none)
    (h : Held runtime p t (.marker mode) T) :
    ∃ T', writeMarker d runtime p t mode T = (.ret (), T') := by
  unfold writeMarker
  by_cases hmode : t.synchronization = mode
  · rw [if_pos hmode]
    exact ⟨_, perform_of_sound hd _ _ T⟩
  · have hwanted : (Target.marker mode).wanted t = some disabledText := if_neg hmode
    have hfound : T.find (markerPath runtime p mode) = some (.file disabledText) := by
      rw [← Option.map_some, ← hwanted]
      exact h.found
    have hfree : blocked T (markerPath runtime p mode) = false := by
      rw [blocked_eq_false, hfound]
      exact ⟨by simp, h.opened mode rfl (by simp [hwanted])⟩
    rw [if_neg hmode]
    refine ⟨putFile T (markerPath runtime p mode) disabledText, (perform_of_sound hd _ _ T).trans ?_⟩
    rw [hfree, if_neg Bool.false_ne_true]

theorem writeMarkers_again {ms : List Bytes} (hd : ∀ op T, d.fault op T = none)
    (h : ∀ mode ∈ ms, Held runtime p t (.marker mode) T) :
    ∃ T', each (writeMarker d runtime p t) ms T = (.ret (), T') := by
  induction ms generalizing T with
  | nil => exact ⟨T, rfl⟩
  | cons mode ms ih =>
    obtain ⟨T₁, hhere⟩ := writeMarker_again hd (h mode (List.mem_cons_self ..))
    have hkept : ∀ x ∈ ms, Held runtime p t (.marker x) T₁ := by
      intro x hx
      exact (writeMarker_ret hhere).kept _ (h x (List.mem_cons_of_mem _ hx))
    obtain ⟨T₂, hothers⟩ := ih hkept
    exact ⟨T₂, (bind_of_ret hhere).trans hothers⟩

theorem writePort_again {port : Bytes} (hd : ∀ op T, d.fault op T = none)
    (h : T.find (portPath runtime port) = Target.node t (.port port)) :
    writePort d runtime t port T = (.ret false, T) := by
  unfold writePort
  simp only [Target.node, Target.wanted, portDropIn] at h
  cases hempty : t.ntpServers.isEmpty with
  | false =>
    have hsize : portText.length ≤ 1048576 := by decide
    rw [hempty] at h
    exact readableWrite_again hd h hsize
  | true =>
    rw [hempty] at h
    have habsent : present d (portPath runtime port) T = (.ret false, T) := by
      rw [present_sound hd, h]
      rfl
    rw [if_neg (by simp), bind_of_ret habsent]
    rfl

theorem writePorts_again {ports : List Bytes} (hd : ∀ op T, d.fault op T = none)
    (hvalid : ∀ port ∈ ports, validInterfaceName port = true)
    (h : ∀ port ∈ ports, T.find (portPath runtime port) = Target.node t (.port port)) :
    writePorts d runtime t ports T = (.ret false, T) := by
  induction ports with
  | nil => rfl
  | cons port ports ih =>
    have hport := writePort_again hd (h port (List.mem_cons_self ..))
    have hports := ih (fun x hx => hvalid x (List.mem_cons_of_mem _ hx))
      fun x hx => h x (List.mem_cons_of_mem _ hx)
    have hcheck : (lift (check (validInterfaceName port) "invalid policy interface") : Files Unit) T =
        (.ret (), T) := by
      rw [check_ok.mpr (hvalid port (List.mem_cons_self ..)), lift_ok]
    rw [writePorts, bind_of_ret hcheck, bind_of_ret hport, bind_of_ret hports]
    rfl

/-! ### The text of the timesyncd drop-in -/

theorem solid_joined {c : UInt8} {parts : List Bytes} (hc : isSpace c = false)
    (h : ∀ part ∈ parts, Solid part) : Solid (joined c parts) := by
  induction parts with
  | nil => simp [Solid]
  | cons part parts ih =>
    have hpart := h part (List.mem_cons_self ..)
    have hparts := ih fun x hx => h x (List.mem_cons_of_mem _ hx)
    by_cases hp : parts = []
    · rw [hp, joined_singleton]
      exact hpart
    · rw [joined_cons hp]
      apply hpart.append
      intro b hb
      rcases List.mem_cons.mp hb with rfl | hb
      · exact hc
      · exact hparts b hb

theorem plain_byte : ∀ c : UInt8,
    (isLetter c || isDigit c || isHexDigit c || c == 45) = true → isSpace c = false :=
  forall_byte (P := fun c => (isLetter c || isDigit c || isHexDigit c || c == 45) = true →
    isSpace c = false) (by decide +kernel)

theorem label_solid {text : Bytes} (h : Label text) : Solid text := by
  intro c hc
  apply plain_byte
  have hb := h.bytes c hc
  simp only [Bool.or_eq_true, beq_iff_eq]
  tauto

theorem hexGroup_solid {text : Bytes} (h : HexGroup text) : Solid text := by
  intro c hc
  apply plain_byte
  simp [h.digits c hc]

theorem groups_solid {tail : Bool} {text : Bytes} {n : ℕ} (h : Groups tail text n) : Solid text := by
  have hcolon : isSpace 58 = false := by decide
  obtain ⟨groups, hall, ⟨rfl, -⟩ | ⟨-, quad, hquad, rfl, -⟩⟩ := h
  · exact solid_joined hcolon fun g hg => hexGroup_solid (hall g hg)
  · apply solid_joined hcolon
    intro g hg
    rcases List.mem_append.mp hg with hg | hg
    · exact hexGroup_solid (hall g hg)
    · rw [List.mem_singleton.mp hg]
      exact hquad.solid

theorem ntpServer_solid {text : Bytes} (h : NtpServer text) : text ≠ [] ∧ Solid text := by
  obtain ⟨hlength, hform⟩ := h
  have hne : text ≠ [] := by
    rintro rfl
    simp at hlength
  refine ⟨hne, ?_⟩
  rcases hform with ⟨-, hsix⟩ | ⟨-, -, hquad⟩ | ⟨-, -, body, hbody, labels, -, hlabels, rfl⟩
  · rcases hsix with hfull | ⟨left, right, l, r, rfl, hleft, hright, -⟩
    · exact groups_solid hfull
    · have hcolons : Solid (ascii "::") := by
        unfold Solid
        decide +kernel
      exact ((groups_solid hleft).append hcolons).append (groups_solid hright)
  · exact hquad.solid
  · have hhost := solid_joined (c := 46) (by decide) fun label hm => label_solid (hlabels label hm)
    rcases hbody with rfl | rfl
    · exact hhost
    · have hdot : Solid (ascii ".") := by
        unfold Solid
        decide +kernel
      exact hhost.append hdot

theorem validateServers_ok {seen servers : List Bytes} (h : validateServers seen servers = .ok ()) :
    ∀ server ∈ servers, NtpServer server :=
  fun server hserver => (validNtpServer_grammar server).mp (validateServers_valid h server hserver)

def serverText (t : TimePreferences) : Bytes := t.ntpServers.flatMap (· ++ ascii " ")

/-- `90-mnc-time.conf` as a document. -/
def serverLines (t : TimePreferences) : List Line :=
  .header (ascii "Time") ::
    if t.ntpServers.isEmpty then []
    else [.entry (ascii "NTP") [], .entry (ascii "NTP") (serverText t), .entry (ascii "FallbackNTP") []]

theorem renderServers_render (t : TimePreferences) : renderServers t = render (serverLines t) := by
  have h₁ : ascii "[Time]\n" = 91 :: ascii "Time" ++ [93] ++ [10] := by decide
  have h₂ : ascii "NTP=\nNTP=" = ascii "NTP" ++ [61] ++ [10] ++ ascii "NTP" ++ [61] := by decide
  have h₃ : ascii "\nFallbackNTP=\n" = [10] ++ ascii "FallbackNTP" ++ [61] ++ [10] := by decide
  unfold renderServers serverLines
  rw [h₁, h₂, h₃]
  cases t.ntpServers.isEmpty with
  | true => simp [render, Line.text]
  | false => simp [render, Line.text, serverText]

/-- What a reader of assignments finds in the drop-in: the servers in order and no fallback, or
nothing at all. -/
structure ServersRead (t : TimePreferences) (text : Bytes) : Prop where
  servers : assigned (values (ascii "Time") (ascii "NTP") (parse text)) = t.ntpServers
  absent : t.ntpServers = [] → parse text = []
  cleared : t.ntpServers ≠ [] → values (ascii "Time") (ascii "FallbackNTP") (parse text) = [[]]
  keys : ∀ i ∈ parse text, i.group = ascii "Time" ∧
    (i.key = ascii "NTP" ∨ i.key = ascii "FallbackNTP")

theorem serverKeys_plain : Line.PlainKey (ascii "NTP") ∧ Line.PlainKey (ascii "FallbackNTP") :=
  ⟨Line.PlainKey.of (by decide +kernel), Line.PlainKey.of (by decide +kernel)⟩

theorem serverText_plain (h : ∀ server ∈ t.ntpServers, server ≠ [] ∧ Solid server) :
    Line.PlainValue (serverText t) := by
  have hspace : ascii " " = [32] := by decide
  unfold serverText
  rw [hspace]
  constructor
  · intro hm
    obtain ⟨server, hserver, hm⟩ := List.mem_flatMap.mp hm
    rcases List.mem_append.mp hm with hm | hm
    · exact (h server hserver).2.plain.noBreak hm
    · simp at hm
  · intro c hc
    cases hs : t.ntpServers with
    | nil =>
      rw [hs] at hc
      simp at hc
    | cons server rest =>
      obtain ⟨hne, hsolid⟩ := h server (by rw [hs]; exact List.mem_cons_self ..)
      rw [hs, List.flatMap_cons, List.append_assoc, List.head?_append_of_ne_nil server hne] at hc
      exact hsolid c (List.mem_of_mem_head? hc)

theorem parse_servers (h : ∀ server ∈ t.ntpServers, server ≠ [] ∧ Solid server) :
    parse (renderServers t) =
      if t.ntpServers.isEmpty then []
      else [⟨ascii "Time", ascii "NTP", []⟩,
        ⟨ascii "Time", ascii "NTP", (serverText t).rdropWhile isSpace⟩,
        ⟨ascii "Time", ascii "FallbackNTP", []⟩] := by
  have hplain : ∀ l ∈ serverLines t, l.Plain := by
    have hheader : (10 : UInt8) ∉ ascii "Time" := by decide
    have hnil : Line.PlainValue [] := solid_nil.plain
    have htext := serverText_plain h
    intro l hl
    rcases List.mem_cons.mp hl with rfl | hl
    · exact hheader
    · cases he : t.ntpServers.isEmpty with
      | true => simp [he] at hl
      | false =>
        simp only [he, Bool.false_eq_true, if_false, List.mem_cons, List.not_mem_nil, or_false] at hl
        rcases hl with rfl | rfl | rfl
        · exact ⟨serverKeys_plain.1, hnil⟩
        · exact ⟨serverKeys_plain.1, htext⟩
        · exact ⟨serverKeys_plain.2, hnil⟩
  rw [renderServers_render, parse_render hplain, serverLines]
  cases t.ntpServers.isEmpty with
  | true => rfl
  | false => rfl

theorem serversRead (h : ∀ server ∈ t.ntpServers, server ≠ [] ∧ Solid server) :
    ServersRead t (renderServers t) := by
  have hparse := parse_servers h
  have hspace : ascii " " = [32] := by decide
  have hkey : ascii "FallbackNTP" ≠ ascii "NTP" := by decide
  have hwords : words ((serverText t).rdropWhile isSpace) = t.ntpServers := by
    rw [serverText, hspace]
    exact words_written h
  cases he : t.ntpServers.isEmpty with
  | true =>
    have hnil : t.ntpServers = [] := List.isEmpty_iff.mp he
    rw [he, if_pos rfl] at hparse
    refine ⟨?_, fun _ => hparse, fun hne => absurd hnil hne, ?_⟩
    · rw [hparse, hnil]
      rfl
    · rw [hparse]
      simp
  | false =>
    rw [he, if_neg Bool.false_ne_true] at hparse
    refine ⟨?_, ?_, ?_, ?_⟩
    · rw [hparse]
      simp only [values_cons, values_nil, and_true, if_true, hkey, and_false, if_false, assigned,
        List.foldl_cons, List.foldl_nil, List.nil_append, hwords]
      split
      · rename_i hempty
        rw [← hwords, hempty]
        decide
      · rfl
    · intro hnil
      rw [hnil] at he
      simp at he
    · intro _
      rw [hparse]
      simp [hkey.symm]
    · rw [hparse]
      simp

theorem serverText_length {servers : List Bytes} (h : ∀ server ∈ servers, server.length ≤ 253) :
    (servers.flatMap (· ++ ascii " ")).length ≤ servers.length * 254 := by
  have hspace : (ascii " ").length = 1 := by decide
  induction servers with
  | nil => simp
  | cons x xs ih =>
    have hx := h x (List.mem_cons_self ..)
    have hxs := ih fun y hy => h y (List.mem_cons_of_mem _ hy)
    rw [List.flatMap_cons, List.length_append, List.length_append, List.length_cons, hspace]
    omega

theorem renderServers_short (ht : ValidTime t) : (renderServers t).length ≤ 1048576 := by
  have hservers : ∀ server ∈ t.ntpServers, server.length ≤ 253 := fun server hserver =>
    (validateServers_ok ht.servers server hserver).1.2
  have hlength := serverText_length hservers
  have hcount := ht.count
  have h₁ : (ascii "[Time]\n").length = 7 := by decide
  have h₂ : (ascii "NTP=\nNTP=").length = 9 := by decide
  have h₃ : (ascii "\nFallbackNTP=\n").length = 14 := by decide
  unfold renderServers
  split
  · simp [h₁]
  · rw [List.length_append, List.length_append, List.length_append, h₁, h₂, h₃]
    omega

/-! ### The policy -/

/-- A call that returned has passed its checks and gone through the markers, the servers and the ports. -/
theorem writeClockPolicy_steps {r : ClockPolicyChanges}
    (h : writeClockPolicy d runtime p t T = (.ret r, T')) :
    validate { time := t } = .ok () ∧ checkIrig p t = .ok () ∧ ∃ T₁ T₂,
      Handles runtime p t (modes.map .marker) T T₁ ∧
      readableWrite d (serversPath runtime) (renderServers t) T₁ = (.ret r.servers, T₂) ∧
      writePorts d runtime t p.interfaceNames T₂ = (.ret r.network, T') := by
  unfold writeClockPolicy at h
  obtain ⟨_, T₁, hcheck, hrest⟩ := bind_ret h
  obtain ⟨hvalid, rfl⟩ := lift_ret hcheck
  obtain ⟨_, T₂, hcheck', hrest'⟩ := bind_ret hrest
  obtain ⟨hirig, rfl⟩ := lift_ret hcheck'
  obtain ⟨_, T₃, hmarkers, hafter⟩ := bind_ret hrest'
  obtain ⟨servers, T₄, hservers, hafter'⟩ := bind_ret hafter
  obtain ⟨network, T₅, hports, hlast⟩ := bind_ret hafter'
  simp only [pure_apply, Prod.mk.injEq, Outcome.ret.injEq] at hlast
  obtain ⟨rfl, rfl⟩ := hlast
  exact ⟨hvalid, hirig, T₃, T₄, writeMarkers_ret hmarkers, hservers, hports⟩

/-- What a call that returned has checked, done and reported. -/
theorem writeClockPolicy_ret {r : ClockPolicyChanges}
    (h : writeClockPolicy d runtime p t T = (.ret r, T')) :
    ValidTime t ∧ checkIrig p t = .ok () ∧ (∀ port ∈ p.interfaceNames, validInterfaceName port = true) ∧
      Handles runtime p t (targets p) T T' ∧
      (r.servers = true ↔ T.find (serversPath runtime) ≠ Target.node t .servers) ∧
      (r.network = true ↔
        ∃ port ∈ p.interfaceNames, T.find (portPath runtime port) ≠ Target.node t (.port port)) := by
  obtain ⟨hvalid, hirig, T₁, T₂, hmarked, hservers, hports⟩ := writeClockPolicy_steps h
  obtain ⟨hserved, hflag⟩ := writeServers_ret (p := p) hservers
  obtain ⟨hnames, hported, hflags⟩ := writePorts_ret (p := p) hports
  have htime : ValidTime t := (validate_ok.mp hvalid).2.1
  -- The markers come first and are none of the drop-ins.
  have hserversKept : T₁.find (serversPath runtime) = T.find (serversPath runtime) :=
    hmarked.others .servers (by simp)
  have hportsKept : ∀ port, T₂.find (portPath runtime port) = T.find (portPath runtime port) := by
    intro port
    have h₁ := hserved.others (.port port) (by simp)
    have h₂ := hmarked.others (.port port) (by simp)
    exact h₁.trans h₂
  rw [hserversKept] at hflag
  simp only [hportsKept] at hflags
  exact ⟨htime, hirig, hnames, hmarked.append (hserved.append hported), hflag, hflags⟩

theorem writeClockPolicy_again (hd : ∀ op T, d.fault op T = none) (ht : ValidTime t)
    (hirig : checkIrig p t = .ok ())
    (hnames : ∀ port ∈ p.interfaceNames, validInterfaceName port = true)
    (h : ∀ x ∈ targets p, Held runtime p t x T) :
    ∃ T', writeClockPolicy d runtime p t T = (.ret ⟨false, false⟩, T') := by
  have hmarkers : ∀ mode ∈ modes, Held runtime p t (.marker mode) T := by
    intro mode hmode
    exact h _ (List.mem_append_left _ (List.mem_map_of_mem hmode))
  obtain ⟨T₁, hmarked⟩ := writeMarkers_again hd hmarkers
  have hkept := (writeMarkers_ret hmarked).kept
  have hserver : T₁.find (serversPath runtime) = some (.file (renderServers t)) :=
    (hkept .servers (h _ (List.mem_append_right _ (List.mem_cons_self ..)))).found
  have hports : ∀ port ∈ p.interfaceNames,
      T₁.find (portPath runtime port) = Target.node t (.port port) := by
    intro port hport
    have hmem : Target.port port ∈ targets p :=
      List.mem_append_right _ (List.mem_cons_of_mem _ (List.mem_map_of_mem hport))
    exact (hkept _ (h _ hmem)).found
  have hwrite := readableWrite_again hd hserver (renderServers_short ht)
  have hports' := writePorts_again hd hnames hports
  refine ⟨T₁, ?_⟩
  unfold writeClockPolicy
  rw [validate_time ht, hirig]
  exact (bind_of_ret hmarked).trans ((bind_of_ret hwrite).trans ((bind_of_ret hports').trans rfl))

/-- A call that returns leaves every file of the policy as the request asks, whatever was there
before and whatever else failed on the way: the marker of the selected mode alone is absent, the
timesyncd drop-in reads as the list of servers, each flag says whether its drop-ins differed, and
a second call changes none of them. -/
theorem clock_policy_files {r : ClockPolicyChanges}
    (h : writeClockPolicy d runtime p t T = (.ret r, T')) :
    (∀ x ∈ targets p, T'.find (x.path runtime p) = x.node t) ∧
      (∀ mode ∈ modes, T'.find (markerPath runtime p mode) = none ↔ t.synchronization = mode) ∧
      (∃ text, T'.find (serversPath runtime) = some (.file text) ∧ ServersRead t text) ∧
      (r.servers = true ↔ T.find (serversPath runtime) ≠ T'.find (serversPath runtime)) ∧
      (r.network = true ↔ ∃ port ∈ p.interfaceNames,
        T.find (portPath runtime port) ≠ T'.find (portPath runtime port)) ∧
      (∀ d' r' T'', writeClockPolicy d' runtime p t T' = (.ret r', T'') → r' = ⟨false, false⟩) ∧
      (∀ d', (∀ op T, Disk.fault d' op T = none) →
        ∃ T'', writeClockPolicy d' runtime p t T' = (.ret ⟨false, false⟩, T'')) := by
  obtain ⟨ht, hirig, hnames, hhandles, hservers, hnetwork⟩ := writeClockPolicy_ret h
  have hfound : ∀ x ∈ targets p, T'.find (x.path runtime p) = x.node t := fun x hx =>
    (hhandles.held x hx).found
  have hserver : T'.find (serversPath runtime) = Target.node t .servers :=
    hfound .servers (List.mem_append_right _ (List.mem_cons_self ..))
  have hport : ∀ port ∈ p.interfaceNames,
      T'.find (portPath runtime port) = Target.node t (.port port) := by
    intro port hm
    exact hfound (.port port)
      (List.mem_append_right _ (List.mem_cons_of_mem _ (List.mem_map_of_mem hm)))
  refine ⟨hfound, ?_, ?_, ?_, ?_, ?_, ?_⟩
  · intro mode hmode
    have hm := hfound (.marker mode) (List.mem_append_left _ (List.mem_map_of_mem hmode))
    have hpath : T'.find (markerPath runtime p mode) = Target.node t (.marker mode) := hm
    rw [hpath, Target.node, Option.map_eq_none_iff]
    show (if t.synchronization = mode then none else some disabledText) = none ↔ _
    by_cases hs : t.synchronization = mode
    · simp [hs]
    · simp [hs]
  · have hsolid : ∀ server ∈ t.ntpServers, server ≠ [] ∧ Solid server := fun server hm =>
      ntpServer_solid (validateServers_ok ht.servers server hm)
    exact ⟨renderServers t, hserver, serversRead hsolid⟩
  · rw [hserver]
    exact hservers
  · rw [hnetwork]
    constructor
    · rintro ⟨port, hm, hne⟩
      exact ⟨port, hm, by rw [hport port hm]; exact hne⟩
    · rintro ⟨port, hm, hne⟩
      rw [hport port hm] at hne
      exact ⟨port, hm, hne⟩
  · intro d' r' T'' h'
    obtain ⟨-, -, -, -, hservers', hnetwork'⟩ := writeClockPolicy_ret h'
    have hs : r'.servers = false := by
      rw [Bool.eq_false_iff, ne_eq, hservers', not_not]
      exact hserver
    have hn : r'.network = false := by
      rw [Bool.eq_false_iff, ne_eq, hnetwork']
      rintro ⟨port, hm, hne⟩
      exact hne (hport port hm)
    cases r'
    simp only at hs hn
    rw [hs, hn]
  · intro d' hd
    exact writeClockPolicy_again hd ht hirig hnames hhandles.held

/-- The product of the tests, and their two requests. -/
def lanProduct : Product where
  runtimeRoot := ascii "/run/test-product"
  interfaces := [⟨ascii "lan7", []⟩, ⟨ascii "lan8", []⟩]

def ntpTime : TimePreferences :=
  { synchronization := ascii "ntp", timezone := ascii "UTC", ptpInterface := []
    ntpServers := [ascii "ntp.example.test", ascii "2001:db8::1"] }

def ptpTime : TimePreferences :=
  { synchronization := ascii "ptp", timezone := ascii "UTC", ptpInterface := ascii "lan7"
    ntpServers := [] }

def lanTree : FileTree := (writeClockPolicy .sound [ascii "run"] lanProduct ntpTime Tree.empty).2

/-- After one request, another undoes what the first alone asked for. -/
theorem clock_policy_files_lan :
    (writeClockPolicy .sound [ascii "run"] lanProduct ptpTime lanTree).1 = .ret ⟨true, true⟩ ∧
      ∀ x ∈ targets lanProduct,
        (writeClockPolicy .sound [ascii "run"] lanProduct ptpTime lanTree).2.find
          (x.path [ascii "run"] lanProduct) = x.node ptpTime := by
  have hret : (writeClockPolicy .sound [ascii "run"] lanProduct ptpTime lanTree).1 =
      .ret ⟨true, true⟩ := by decide
  exact ⟨hret, (clock_policy_files (Prod.ext hret rfl)).1⟩

/-! ### The native adapter's view -/

/-- A machine that shows the drop-ins of a tree; there is a file or nothing at each of them. -/
structure Shows (runtime : List Bytes) (T : FileTree) (m : Machine) : Prop where
  dropIn : T.find (serversPath runtime) = m.dropIn.map .file
  ports : ∀ port, T.find (portPath runtime port) = (m.portFile port).map .file

theorem map_file_inj {a b : Option Bytes} : a.map Node.file = b.map Node.file ↔ a = b := by
  constructor
  · intro h
    exact Option.map_injective (fun _ _ he => Node.file.inj he) h
  · intro h
    rw [h]

theorem writePort_step (port : Bytes) (m : Machine) :
    Native.writePort .none t port m = (.ret (decide (m.portFile port ≠ portDropIn t)),
      if m.portFile port = portDropIn t then m else m.setPortFile port (portDropIn t)) := by
  unfold Native.writePort
  rw [gets_bind]
  by_cases h : m.portFile port = portDropIn t
  · simp [h]
  · rw [if_neg h, if_neg h, decide_eq_true (show m.portFile port ≠ portDropIn t from h)]
    rfl

/-- Where a call on the files returns, the adapter's call does so with the same report. -/
theorem writePorts_refines {faults : ℕ → Fault} (hf : ∀ i, faults i = .none) {ports : List Bytes}
    {i : ℕ} {b : Bool} {m : Machine} (hm : Shows runtime T m)
    (h : writePorts d runtime t ports T = (.ret b, T')) :
    ∃ m', Native.writePorts faults t i ports m = (.ret b, m') ∧ Shows runtime T' m' := by
  induction ports generalizing T b m i with
  | nil =>
    unfold writePorts at h
    simp only [pure_apply, Prod.mk.injEq, Outcome.ret.injEq] at h
    obtain ⟨rfl, rfl⟩ := h
    exact ⟨m, rfl, hm⟩
  | cons port ports ih =>
    unfold writePorts at h
    obtain ⟨u, T₁, hcheck, hrest⟩ := bind_ret h
    obtain ⟨hvalid, rfl⟩ := lift_ret hcheck
    obtain ⟨here, T₂, hhere, hafter⟩ := bind_ret hrest
    obtain ⟨others, T₃, hothers, hlast⟩ := bind_ret hafter
    simp only [pure_apply, Prod.mk.injEq, Outcome.ret.injEq] at hlast
    obtain ⟨rfl, rfl⟩ := hlast
    obtain ⟨hhandles, hflag⟩ := writePort_ret (p := {}) hhere
    have hsame : here = decide (m.portFile port ≠ portDropIn t) := by
      rw [Bool.eq_iff_iff, hflag, decide_eq_true_iff, hm.ports port]
      exact not_congr map_file_inj
    have hshows : Shows runtime T₂ (if m.portFile port = portDropIn t then m
        else m.setPortFile port (portDropIn t)) := by
      have hserver := hhandles.others .servers (by simp)
      have hheld := (hhandles.held (.port port) (List.mem_cons_self ..)).found
      refine ⟨?_, ?_⟩
      · rw [show T₂.find (serversPath runtime) = T₁.find (serversPath runtime) from hserver, hm.dropIn]
        split
        · rfl
        · rfl
      · intro x
        by_cases hx : x = port
        · subst hx
          rw [show T₂.find (portPath runtime x) = (portDropIn t).map .file from hheld]
          split
          · rename_i he
            rw [he]
          · simp [Machine.setPortFile]
        · have hother := hhandles.others (.port x) (by simpa using hx)
          rw [show T₂.find (portPath runtime x) = T₁.find (portPath runtime x) from hother, hm.ports x]
          split
          · rfl
          · simp [Machine.setPortFile, hx]
    obtain ⟨m', hrun, hm'⟩ := ih (i := i + 1) hshows hothers
    refine ⟨m', ?_, hm'⟩
    have hstep : Native.writePort (faults i) t port m = (.ret here, if m.portFile port = portDropIn t
        then m else m.setPortFile port (portDropIn t)) := by
      rw [hf i, hsame]
      exact writePort_step port m
    rw [Native.writePorts, hvalid]
    exact (bind_of_ret hstep).trans ((bind_of_ret hrun).trans rfl)

theorem writeClockPolicy_refines {r : ClockPolicyChanges} {m : Machine} (hm : Shows runtime T m)
    (h : writeClockPolicy d runtime p t T = (.ret r, T')) :
    ∃ m', Native.writeClockPolicy p t faultless m = (.ret r, m') ∧ Shows runtime T' m' := by
  obtain ⟨hvalid, hirig, T₁, T₂, hmarked, hservers, hports⟩ := writeClockPolicy_steps h
  have hshown : Shows runtime T₁ m := by
    refine ⟨(hmarked.others .servers (by simp)).trans hm.dropIn, ?_⟩
    intro port
    exact (hmarked.others (.port port) (by simp)).trans (hm.ports port)
  obtain ⟨hserved, hflag⟩ := writeServers_ret (p := p) hservers
  have hstep : ∃ m₁, Native.writeServers (faultless .servers) t m = (.ret r.servers, m₁) ∧
      Shows runtime T₂ m₁ := by
    have hheld := (hserved.held .servers (List.mem_cons_self ..)).found
    have hports' : ∀ port, T₂.find (portPath runtime port) = (m.portFile port).map .file := by
      intro port
      exact (hserved.others (.port port) (by simp)).trans (hshown.ports port)
    have hiff : r.servers = true ↔ m.dropIn ≠ some (renderServers t) := by
      rw [hflag, hshown.dropIn]
      exact not_congr map_file_inj
    unfold Native.writeServers
    rw [gets_bind]
    by_cases hsame : m.dropIn = some (renderServers t)
    · have hfalse : r.servers = false := by simpa [hsame] using hiff
      refine ⟨m, ?_, ⟨hheld.trans (by rw [hsame]; rfl), hports'⟩⟩
      rw [if_pos hsame, hfalse]
      rfl
    · have htrue : r.servers = true := hiff.mpr hsame
      refine ⟨m.writeDropIn (renderServers t), ?_, ⟨hheld, hports'⟩⟩
      rw [if_neg hsame, htrue]
      rfl
  obtain ⟨m₁, hrun, hm₁⟩ := hstep
  have hf : ∀ i, (fun i => faultless (.port i)) i = Fault.none := fun _ => rfl
  obtain ⟨m₂, hrun', hm₂⟩ := writePorts_refines (i := 0) hf hm₁ hports
  refine ⟨m₂, ?_, hm₂⟩
  unfold Native.writeClockPolicy
  rw [hvalid, hirig]
  exact (bind_of_ret hrun).trans ((bind_of_ret hrun').trans rfl)

end Monutchee.System.ClockFiles

