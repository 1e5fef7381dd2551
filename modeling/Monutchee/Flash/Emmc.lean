import Mathlib.Logic.Function.Basic
import Monutchee.Lib.Session
import Monutchee.System.Validation

/-!
# The production flasher (mncos-flash-emmc)

The script that overwrites the eMMC with a downloaded image. It runs with `set -eu`: a command that
fails ends it, in a pipeline the last one. The environment answers every command: it brings the
downloads, types the answer, decides how much of the image comes out of the decompressor, lets a
command fail and may cut the script off at any of them.
-/

namespace Monutchee.Flash
open Lib
open Monutchee.System (Bytes ascii)
open Monutchee.System.Validation (isDigit contains)

/-! ### What the script sees -/

/-- The programs that it relies on: the digest in hexadecimal, the lines of a checksum file with
their digests and names, and what an xz stream expands to if it is sound. -/
structure Tools where
  sha256 : Bytes → Bytes
  listed : Bytes → List (Bytes × Bytes)
  expand : Bytes → Option Bytes

/-- An entry of /sys/class/block/mmcblk[0-9]*. -/
structure Sysdev where
  name : Bytes
  type : Bytes
  removable : Bytes
  deriving DecidableEq, Repr

/-- `mounts` are the lines of /proc/mounts, `blocks` the block devices with their contents, `files`
the files in the work directory. -/
structure World where
  cmdline : List Bytes
  sysfs : List Sysdev
  mounts : List Bytes
  blocks : Bytes → Option Bytes
  files : Bytes → Option Bytes

/-- `found` is what the grep finds of a target that is a pattern, `content` what a download leaves,
`line` what is typed, `cut` how much of the image comes through the pipe if not all of it does. -/
structure Answer where
  crash : Bool := false
  fails : Bool := false
  found : Bool := false
  content : Bytes := []
  line : Option Bytes := none
  cut : Option ℕ := none
  deriving DecidableEq, Repr

inductive Stop where
  | exit (code : ℕ) (message : Bytes)
  | failed
  deriving DecidableEq, Repr

abbrev Machine := Session Answer Bytes World

abbrev Prog := Act Machine Stop

def refuse (message : String) : Stop := .exit 1 (ascii message)

/-! ### Settings (lines 5-50) -/

def cmdlineValue (key : Bytes) : List Bytes → Option Bytes
  | [] => none
  | argument :: rest =>
    if (key ++ ascii "=").isPrefixOf argument then some (argument.drop (key.length + 1)) else cmdlineValue key rest

/-- The variables that the configuration file or the caller has set. -/
structure Config where
  server : Option Bytes := none
  image : Option Bytes := none
  checksum : Option Bytes := none
  target : Option Bytes := none
  deriving DecidableEq, Repr

structure Settings where
  server : Bytes
  image : Bytes
  checksum : Bytes
  target : Bytes
  yes : Bool
  deriving DecidableEq, Repr

/-- `${VAR:-word}` -/
def orElse (value : Option Bytes) (word : Bytes) : Bytes :=
  match value with
  | some v => if v.isEmpty then word else v
  | none => word

/-- The name of the checksum file is made before the options are read. -/
def defaults (c : Config) (cmdline : List Bytes) : Settings where
  server := orElse c.server ((cmdlineValue (ascii "mncos.tftp_server") cmdline).getD [])
  image := orElse c.image (ascii "target.wic.xz")
  checksum := orElse c.checksum (orElse c.image (ascii "target.wic.xz") ++ ascii ".sha256")
  target := c.target.getD []
  yes := false

def options : Settings → List Bytes → Except Stop Settings
  | s, [] => .ok s
  | s, option :: rest =>
    if option = ascii "--server" then
      match rest with
      | [] => .error .failed
      | value :: rest => options { s with server := value } rest
    else if option = ascii "--image" then
      match rest with
      | [] => .error .failed
      | value :: rest => options { s with image := value } rest
    else if option = ascii "--checksum" then
      match rest with
      | [] => .error .failed
      | value :: rest => options { s with checksum := value } rest
    else if option = ascii "--target" then
      match rest with
      | [] => .error .failed
      | value :: rest => options { s with target := value } rest
    else if option = ascii "--yes" then options { s with yes := true } rest
    else if option = ascii "-h" ∨ option = ascii "--help" then .error (.exit 0 [])
    else .error (.exit 2 (ascii "Unknown option: " ++ option))

/-! ### The target (lines 57-99) -/

/-- The device is an MMC device that is not removable. -/
def Sysdev.isEmmc (d : Sysdev) : Bool := d.type == ascii "MMC" && d.removable == ascii "0"

def detectLoop : Bytes → List Sysdev → Except Stop Bytes
  | found, [] => if found.isEmpty then .error (refuse "No non-removable eMMC user device was detected") else .ok found
  | found, d :: ds =>
    if d.isEmmc then
      if found.isEmpty then detectLoop (ascii "/dev/" ++ d.name) ds
      else .error (refuse "Multiple eMMC devices found; select one with --target")
    else detectLoop found ds

def detectEmmc (sysfs : List Sysdev) : Except Stop Bytes := detectLoop [] sysfs

/-- `/dev/mmcblk[0-9]*` -/
def isMmc (target : Bytes) : Bool :=
  (ascii "/dev/mmcblk").isPrefixOf target && (target.drop (ascii "/dev/mmcblk").length).head?.any isDigit

/-- `*p[0-9]*` -/
def hasPartition : Bytes → Bool
  | c :: d :: rest => (c == 112 && isDigit d) || hasPartition (d :: rest)
  | _ => false

/-- `*boot*|*rpmb*|*p[0-9]*` -/
def isPart (target : Bytes) : Bool :=
  contains (ascii "boot") target || contains (ascii "rpmb") target || hasPartition target

/-- No character has a meaning of its own in a regular expression. -/
def isLiteral (target : Bytes) : Bool := target.all fun c => !(ascii ".[]*^$\\\n").contains c

def isMounted (target : Bytes) (mounts : List Bytes) : Bool :=
  mounts.any fun line => target.isPrefixOf line || (target ++ ascii "p").isPrefixOf line

def checkTarget (w : World) (target : Bytes) : Except Stop Unit :=
  if (w.blocks target).isNone then .error (.exit 1 (target ++ ascii " is not a block device"))
  else if !isMmc target then .error (.exit 1 (ascii "Refusing non-MMC target: " ++ target))
  else if isPart target then
    .error (refuse "Use the whole eMMC user device, not a partition/boot/RPMB device")
  else .ok ()

def chooseTarget (w : World) (s : Settings) : Except Stop Bytes :=
  if s.target.isEmpty then detectEmmc w.sysfs else .ok s.target

/-! ### The commands (lines 94-141) -/

/-- A command: it changes the world as it can, whether it succeeds or not. -/
def command (effect : Answer → World → World) : Prog Unit :=
  Session.ask fun a w =>
    if a.crash then ⟨[], effect a w, .crash⟩
    else if a.fails then ⟨[], effect a w, .raise .failed⟩
    else ⟨[], effect a w, .ret ()⟩

/-- A command that tells something about the world, if it does not fail. -/
def tell {α : Type} (f : World → Option α) : Prog α :=
  Session.ask fun a w =>
    if a.crash then ⟨[], w, .crash⟩
    else if a.fails then ⟨[], w, .raise .failed⟩
    else match f w with
      | none => ⟨[], w, .raise .failed⟩
      | some v => ⟨[], w, .ret v⟩

def echo (text : Bytes) : Prog Unit := fun s => (.ret (), { s with record := s.record ++ [text] })

def put (name : Bytes) (content : Option Bytes) (w : World) : World :=
  { w with files := Function.update w.files name content }

/-- The grep in /proc/mounts. One that fails finds nothing, and a target with special characters is a
pattern of its own. -/
def grepMounts (target : Bytes) : Prog Bool :=
  Session.ask fun a w =>
    if a.crash then ⟨[], w, .crash⟩
    else if a.fails then ⟨[], w, .ret false⟩
    else ⟨[], w, .ret (if isLiteral target then isMounted target w.mounts else a.found)⟩

/-- `mkdir -p "$WORKDIR"` and `cd "$WORKDIR"` -/
def enter : Prog Unit := command fun _ w => w

/-- `rm -f "$IMAGE_NAME" "$CHECKSUM_NAME"` -/
def remove (s : Settings) : Prog Unit := command fun _ w => put s.checksum none (put s.image none w)

/-- `tftp -g -r NAME -l NAME SERVER` -/
def tftp (name : Bytes) : Prog Unit := command fun a w => put name (some a.content) w

/-- All files that the checksum file lists are there and have their digests; it lists at least one. -/
def checksumHolds (T : Tools) (files : Bytes → Option Bytes) (checksum : Bytes) : Bool :=
  !(T.listed checksum).isEmpty && (T.listed checksum).all fun line =>
    match files line.2 with
    | some content => T.sha256 content == line.1
    | none => false

/-- `sha256sum -c "$CHECKSUM_NAME"` -/
def sha256sum (T : Tools) (name : Bytes) : Prog Unit := tell fun w =>
  match w.files name with
  | some checksum => if checksumHolds T w.files checksum then some () else none
  | none => none

/-- `xz -t "$IMAGE_NAME"` and the size that `xz -l` prints. -/
def expanded (T : Tools) (name : Bytes) (w : World) : Option Bytes := (w.files name).bind T.expand

def xzTest (T : Tools) (name : Bytes) : Prog Unit := tell fun w => (expanded T name w).map fun _ => ()

/-- The status of this pipeline is awk's: without a size the text is empty. -/
def imageBytes (T : Tools) (name : Bytes) : Prog (Option ℕ) :=
  Session.ask fun a w =>
    if a.crash then ⟨[], w, .crash⟩
    else if a.fails then ⟨[], w, .ret none⟩
    else ⟨[], w, .ret ((expanded T name w).map List.length)⟩

def deviceBytes (target : Bytes) : Prog ℕ := tell fun w => (w.blocks target).map List.length

def isBlank (c : UInt8) : Bool := c == 32 || c == 9

/-- What `read -r` makes of a line. -/
def trimBlanks (line : Bytes) : Bytes := ((line.dropWhile isBlank).reverse.dropWhile isBlank).reverse

def readAnswer : Prog Bytes :=
  Session.ask fun a w =>
    if a.crash then ⟨[], w, .crash⟩
    else match a.line with
      | none => ⟨[], w, .raise .failed⟩
      | some line => ⟨[], w, .ret (trimBlanks line)⟩

/-- What comes through the pipe. -/
def piped (a : Answer) (image : Bytes) : Bytes :=
  match a.cut with
  | none => image
  | some n => image.take n

/-- What is written over the front of a device. -/
def overwrite (old new : Bytes) : Bytes := new ++ old.drop new.length

def burned (target image : Bytes) (w : World) : World :=
  { w with blocks := Function.update w.blocks target ((w.blocks target).map fun old => overwrite old image) }

/-- `xz -dc "$IMAGE_NAME" | dd of="$TARGET_DEVICE"`: the status is that of dd, which cannot tell whether
the decompressor came to its end. -/
def writeImage (T : Tools) (name target : Bytes) : Prog Unit :=
  command fun a w => burned target (piped a ((expanded T name w).getD [])) w

def sync : Prog Unit := command fun _ w => w

/-- `blockdev --rereadpt "$TARGET_DEVICE" || true` -/
def reread : Prog Unit := Session.ask fun a w => if a.crash then ⟨[], w, .crash⟩ else ⟨[], w, .ret ()⟩

def confirm (s : Settings) : Prog Unit :=
  if s.yes then pure ()
  else do
    echo (ascii "Type ERASE to continue: ")
    let answer ← readAnswer
    Act.require (answer == ascii "ERASE") (.exit 1 (ascii "Cancelled"))

def check (ok : Bool) (message : Bytes) : Prog Unit := Act.require ok (.exit 1 message)

/-- The downloads and their checks (lines 99-120). -/
def fetch (T : Tools) (s : Settings) (target : Bytes) : Prog (ℕ × ℕ) := do
  enter
  remove s
  echo (ascii "Downloading " ++ s.image ++ ascii " from " ++ s.server)
  tftp s.image
  tftp s.checksum
  echo (ascii "Verifying SHA-256 and XZ stream")
  sha256sum T s.checksum
  xzTest T s.image
  let image ← imageBytes T s.image
  let device ← deviceBytes target
  check image.isSome (ascii "Could not determine uncompressed image size")
  check (image.getD 0 ≤ device) (ascii "Image is larger than " ++ target)
  return (image.getD 0, device)

def size (name : Bytes) (n : ℕ) (unit : String) : Bytes :=
  name ++ ascii " (" ++ ascii (toString n) ++ ascii unit ++ ascii ")"

/-- The write (lines 122-141). -/
def burn (T : Tools) (s : Settings) (target : Bytes) (image device : ℕ) : Prog Unit := do
  echo []
  echo (ascii "WARNING: this will erase all data on " ++ target)
  echo (ascii "Image:  " ++ size s.image image " bytes uncompressed")
  echo (ascii "Target: " ++ size target device " bytes")
  confirm s
  echo (ascii "Writing image to " ++ target)
  writeImage T s.image target
  sync
  reread
  echo (ascii "Production flashing complete. Power off before changing the boot mode.")

def select (c : Config) (args : List Bytes) (w : World) : Except Stop (Settings × Bytes) := do
  let s ← options (defaults c w.cmdline) args
  if s.server.isEmpty then .error (refuse "No TFTP server received from U-Boot; use --server")
  else
    let target ← chooseTarget w s
    checkTarget w target
    return (s, target)

/-- The script -/
def flash (T : Tools) (c : Config) (args : List Bytes) : Prog Unit := do
  let w ← Act.gets fun s => s.world
  let (s, target) ← Act.lift (select c args w)
  let mounted ← grepMounts target
  check (!mounted) (target ++ ascii " or one of its partitions is mounted")
  let (image, device) ← fetch T s target
  burn T s target image device

/-! ### What is allowed -/

/-- The script puts its questions in this order; it comes to the write with or without the prompt. -/
inductive Question where
  | mounts | workdir | remove | image | checksum | sha256sum | xzTest | imageBytes | deviceBytes | prompt
  deriving DecidableEq, Repr

/-- The turn in which the environment answers. -/
def Question.turn : Question → ℕ
  | .mounts => 0
  | .workdir => 1
  | .remove => 2
  | .image => 3
  | .checksum => 4
  | .sha256sum => 5
  | .xzTest => 6
  | .imageBytes => 7
  | .deviceBytes => 8
  | .prompt => 9

def writeTurn (s : Settings) : ℕ := Question.prompt.turn + if s.yes then 0 else 1

/-- A block device whose name is that of a whole MMC device. -/
structure Whole (w : World) (target old : Bytes) : Prop where
  block : w.blocks target = some old
  mmc : isMmc target = true
  whole : isPart target = false

/-- The only MMC device that is not removable. -/
def Detected (sysfs : List Sysdev) (target : Bytes) : Prop :=
  ∃ d, sysfs.filter Sysdev.isEmmc = [d] ∧ target = ascii "/dev/" ++ d.name

/-- The grep has not shown the target as mounted. -/
def Unmounted (w : World) (answers : ℕ → Answer) (target : Bytes) : Prop :=
  (answers Question.mounts.turn).fails = true ∨ isLiteral target = false ∨
    ∀ line ∈ w.mounts, target.isPrefixOf line = false

/-- The work directory after the downloads. -/
def workdir (files : Bytes → Option Bytes) (s : Settings) (image checksum : Bytes) : Bytes → Option Bytes :=
  Function.update (Function.update (Function.update (Function.update files s.image none) s.checksum none) s.image
    (some image)) s.checksum (some checksum)

/-- Every file that the downloaded checksum file lists has its digest, and the file with the name of
the image expands to something that the target has room for. -/
structure Fetched (T : Tools) (s : Settings) (files : Bytes → Option Bytes) (old image : Bytes) : Prop where
  listed : ∃ checksum, files s.checksum = some checksum ∧ T.listed checksum ≠ [] ∧
    ∀ line ∈ T.listed checksum, ∃ content, files line.2 = some content ∧ T.sha256 content = line.1
  expands : ∃ content, files s.image = some content ∧ T.expand content = some image
  fits : image.length ≤ old.length

/-- Without `--yes` the line typed at the prompt is ERASE. -/
def Confirmed (s : Settings) (answers : ℕ → Answer) : Prop :=
  s.yes = true ∨ ∃ line, (answers Question.prompt.turn).line = some line ∧ trimBlanks line = ascii "ERASE"

/-- All that holds before the write. -/
structure Approved (T : Tools) (c : Config) (args : List Bytes) (w : World) (answers : ℕ → Answer) (s : Settings)
    (target old image : Bytes) : Prop where
  selected : select c args w = .ok (s, target)
  whole : Whole w target old
  detected : s.target = [] → Detected w.sysfs target
  unmounted : Unmounted w answers target
  fetched : Fetched T s (workdir w.files s (answers Question.image.turn).content
    (answers Question.checksum.turn).content) old image
  confirmed : Confirmed s answers

/-- The target is the only device that is written, with what came through the pipe. -/
def Flashed (T : Tools) (c : Config) (args : List Bytes) (w : World) (answers : ℕ → Answer)
    (blocks : Bytes → Option Bytes) : Prop :=
  ∃ s target old image, Approved T c args w answers s target old image ∧
    blocks = Function.update w.blocks target (some (overwrite old (piped (answers (writeTurn s)) image)))

/-! ### Before the write -/

/-- No device is written. -/
structure Spared (answers : ℕ → Answer) (w : World) (s : Machine) : Prop where
  blocks : s.world.blocks = w.blocks
  told : s.answers = answers

section

variable {T : Tools} {c : Config} {args : List Bytes} {w : World} {answers : ℕ → Answer} {m : Machine} {st : Settings}
variable {target : Bytes}

theorem Spared.moved (h : Spared answers w m) {events : List Bytes} {u : World} (hu : u.blocks = m.world.blocks) :
    Spared answers w (m.moved events u) := ⟨hu.trans h.blocks, h.told⟩

theorem Spared.answer (h : Spared answers w m) : m.next = answers m.turn := congrFun h.told m.turn

theorem echo_spared (text : Bytes) (h : Spared answers w m) :
    Act.Upholds (Spared answers w) (echo text) m fun _ m' => m'.world = m.world ∧ m'.turn = m.turn := by
  constructor
  · exact ⟨h.blocks, h.told⟩
  · intro _ m' hm'
    cases hm'
    exact ⟨rfl, rfl⟩

theorem ask_spared {α : Type} {reply : Answer → World → Reply Bytes World Stop α} (h : Spared answers w m)
    (hreply : ∀ a u, (reply a u).world.blocks = u.blocks) :
    Act.Upholds (Spared answers w) (Session.ask reply) m fun v m' =>
      m'.world = (reply (answers m.turn) m.world).world ∧ (reply (answers m.turn) m.world).outcome = .ret v ∧
        m'.turn = m.turn + 1 := by
  apply Session.upholds_ask
  · exact h.moved (hreply _ _)
  · intro v hret
    rw [h.answer] at hret ⊢
    exact ⟨rfl, hret, rfl⟩

theorem command_spared {effect : Answer → World → World} (h : Spared answers w m)
    (heffect : ∀ a u, (effect a u).blocks = u.blocks) :
    Act.Upholds (Spared answers w) (command effect) m fun _ m' =>
      m'.world = effect (answers m.turn) m.world ∧ m'.turn = m.turn + 1 := by
  have hworld : ∀ a u, ((if a.crash then ⟨[], effect a u, .crash⟩
      else if a.fails then ⟨[], effect a u, .raise .failed⟩
      else ⟨[], effect a u, .ret ()⟩ : Reply Bytes World Stop Unit)).world = effect a u := by
    intro a u
    split
    · rfl
    · split
      · rfl
      · rfl
  apply (ask_spared h fun a u => by rw [hworld, heffect]).mono
  intro _ m' _ hret
  obtain ⟨hmoved, -, hturn⟩ := hret
  exact ⟨hmoved.trans (hworld _ _), hturn⟩

theorem tell_spared {α : Type} {f : World → Option α} (h : Spared answers w m) :
    Act.Upholds (Spared answers w) (tell f) m fun v m' =>
      m'.world = m.world ∧ f m.world = some v ∧ m'.turn = m.turn + 1 := by
  have hworld : ∀ (a : Answer) (u : World), ((if a.crash then ⟨[], u, .crash⟩
      else if a.fails then ⟨[], u, .raise .failed⟩
      else match f u with
        | none => ⟨[], u, .raise .failed⟩
        | some v => ⟨[], u, .ret v⟩ : Reply Bytes World Stop α)).world = u := by
    intro a u
    split
    · rfl
    · split
      · rfl
      · split
        · rfl
        · rfl
  apply (ask_spared h fun a u => by rw [hworld]).mono
  intro v m' _ hret
  obtain ⟨hmoved, hv, hturn⟩ := hret
  refine ⟨hmoved.trans (hworld _ _), ?_, hturn⟩
  split at hv
  · cases hv
  · split at hv
    · cases hv
    · cases hf : f m.world with
      | none =>
        rw [hf] at hv
        cases hv
      | some v' =>
        rw [hf] at hv
        cases hv
        rfl

/-- A grep that finds nothing has failed, or nothing is mounted from the target. -/
theorem grepMounts_spared (h : Spared answers w m) (hturn : m.turn = Question.mounts.turn) :
    Act.Upholds (Spared answers w) (grepMounts target) m fun mounted m' =>
      m'.world = m.world ∧ m'.turn = m.turn + 1 ∧ (mounted = false → Unmounted m.world answers target) := by
  have hworld : ∀ (a : Answer) (u : World), ((if a.crash then ⟨[], u, .crash⟩
      else if a.fails then ⟨[], u, .ret false⟩
      else ⟨[], u, .ret (if isLiteral target then isMounted target u.mounts else a.found)⟩ :
        Reply Bytes World Stop Bool)).world = u := by
    intro a u
    split
    · rfl
    · split
      · rfl
      · rfl
  apply (ask_spared h fun a u => by rw [hworld]).mono
  intro mounted m' _ hret
  obtain ⟨hmoved, hmounted, hturn'⟩ := hret
  refine ⟨hmoved.trans (hworld _ _), hturn', ?_⟩
  rintro rfl
  rw [hturn] at hmounted
  split at hmounted
  · cases hmounted
  · split at hmounted
    · rename_i hfails
      exact .inl hfails
    · have hfree := Outcome.ret.inj hmounted
      right
      by_cases hliteral : isLiteral target = true
      · right
        rw [if_pos hliteral] at hfree
        intro line hline
        have hboth := List.any_eq_false.mp hfree line hline
        rw [Bool.or_eq_true, not_or] at hboth
        exact (Bool.not_eq_true _).mp hboth.1
      · exact .inl (by simpa using hliteral)

theorem remove_spared (h : Spared answers w m) :
    Act.Upholds (Spared answers w) (remove st) m fun _ m' =>
      m'.world = put st.checksum none (put st.image none m.world) ∧ m'.turn = m.turn + 1 :=
  command_spared h fun _ _ => rfl

theorem tftp_spared (name : Bytes) (h : Spared answers w m) :
    Act.Upholds (Spared answers w) (tftp name) m fun _ m' =>
      m'.world = put name (some (answers m.turn).content) m.world ∧ m'.turn = m.turn + 1 :=
  command_spared h fun _ _ => rfl

theorem imageBytes_spared (name : Bytes) (h : Spared answers w m) :
    Act.Upholds (Spared answers w) (imageBytes T name) m fun n m' => m'.world = m.world ∧
      (n = none ∨ n = (expanded T name m.world).map List.length) ∧ m'.turn = m.turn + 1 := by
  have hworld : ∀ (a : Answer) (u : World), ((if a.crash then ⟨[], u, .crash⟩
      else if a.fails then ⟨[], u, .ret none⟩
      else ⟨[], u, .ret ((expanded T name u).map List.length)⟩ : Reply Bytes World Stop (Option ℕ))).world = u := by
    intro a u
    split
    · rfl
    · split
      · rfl
      · rfl
  apply (ask_spared h fun a u => by rw [hworld]).mono
  intro n m' _ hret
  obtain ⟨hmoved, hn, hturn⟩ := hret
  refine ⟨hmoved.trans (hworld _ _), ?_, hturn⟩
  split at hn
  · cases hn
  · split at hn
    · cases hn
      exact .inl rfl
    · cases hn
      exact .inr rfl

theorem readAnswer_spared (h : Spared answers w m) :
    Act.Upholds (Spared answers w) readAnswer m fun typed m' => m'.world = m.world ∧ m'.turn = m.turn + 1 ∧
      ∃ line, (answers m.turn).line = some line ∧ trimBlanks line = typed := by
  have hworld : ∀ (a : Answer) (u : World), ((if a.crash then ⟨[], u, .crash⟩
      else match a.line with
        | none => ⟨[], u, .raise .failed⟩
        | some line => ⟨[], u, .ret (trimBlanks line)⟩ : Reply Bytes World Stop Bytes)).world = u := by
    intro a u
    split
    · rfl
    · split
      · rfl
      · rfl
  apply (ask_spared h fun a u => by rw [hworld]).mono
  intro typed m' _ hret
  obtain ⟨hmoved, htyped, hturn⟩ := hret
  refine ⟨hmoved.trans (hworld _ _), hturn, ?_⟩
  split at htyped
  · cases htyped
  · cases hline : (answers m.turn).line with
    | none =>
      rw [hline] at htyped
      cases htyped
    | some line =>
      rw [hline] at htyped
      cases htyped
      exact ⟨line, rfl, rfl⟩

theorem confirm_spared (h : Spared answers w m) (hturn : m.turn = Question.prompt.turn) :
    Act.Upholds (Spared answers w) (confirm st) m fun _ m' =>
      m'.world = m.world ∧ m'.turn = writeTurn st ∧ Confirmed st answers := by
  unfold confirm
  by_cases hyes : st.yes = true
  · rw [if_pos hyes]
    refine Act.Upholds.pure h ⟨rfl, ?_, .inl hyes⟩
    rw [hturn, writeTurn, if_pos hyes, Nat.add_zero]
  · rw [if_neg hyes]
    apply Act.Upholds.bind (echo_spared _ h)
    intro _ m₁ h₁ hsaid
    obtain ⟨hworld₁, hturn₁⟩ := hsaid
    apply Act.Upholds.bind (readAnswer_spared h₁)
    intro typed m₂ h₂ htyped
    obtain ⟨hworld₂, hturn₂, line, hline, htrim⟩ := htyped
    apply Act.Upholds.require h₂
    intro herase
    rw [hturn₁, hturn] at hline hturn₂
    refine ⟨hworld₂.trans hworld₁, ?_, .inr ⟨line, hline, htrim.trans (eq_of_beq herase)⟩⟩
    rw [hturn₂, writeTurn, if_neg hyes]

/-- What `sha256sum -c` has checked. -/
theorem checksum_listed {files : Bytes → Option Bytes} {name : Bytes}
    (h : (match files name with
      | some checksum => if checksumHolds T files checksum then some () else none
      | none => none) = some ()) :
    ∃ checksum, files name = some checksum ∧ T.listed checksum ≠ [] ∧
      ∀ line ∈ T.listed checksum, ∃ content, files line.2 = some content ∧ T.sha256 content = line.1 := by
  cases hfile : files name with
  | none =>
    rw [hfile] at h
    cases h
  | some checksum =>
    rw [hfile] at h
    by_cases hholds : checksumHolds T files checksum = true
    · unfold checksumHolds at hholds
      rw [Bool.and_eq_true, List.all_eq_true] at hholds
      obtain ⟨hsome, hall⟩ := hholds
      refine ⟨checksum, rfl, by simpa using hsome, ?_⟩
      intro line hline
      have hmatch := hall line hline
      cases hcontent : files line.2 with
      | none =>
        rw [hcontent] at hmatch
        cases hmatch
      | some content =>
        rw [hcontent] at hmatch
        exact ⟨content, rfl, eq_of_beq hmatch⟩
    · simp only [hholds] at h
      cases h

theorem fetch_spared {old : Bytes} (h : Spared answers w m) (hold : w.blocks target = some old)
    (hturn : m.turn = Question.workdir.turn) :
    Act.Upholds (Spared answers w) (fetch T st target) m fun _ m' => ∃ image,
      m'.world.files = workdir m.world.files st (answers Question.image.turn).content
        (answers Question.checksum.turn).content ∧
      Fetched T st m'.world.files old image ∧ expanded T st.image m'.world = some image ∧
      m'.turn = Question.prompt.turn := by
  unfold fetch
  apply Act.Upholds.bind (command_spared h fun _ _ => rfl)
  intro _ m₀ h₀ hentered
  obtain ⟨hworld₀, hturn₀⟩ := hentered
  apply Act.Upholds.bind (remove_spared h₀)
  intro _ m₁ h₁ hremoved
  obtain ⟨hremoved, hturn₁⟩ := hremoved
  apply Act.Upholds.bind (echo_spared _ h₁)
  intro _ m₂ h₂ hsaid₂
  obtain ⟨hworld₂, hturn₂⟩ := hsaid₂
  have himageTurn : m₂.turn = Question.image.turn := by rw [hturn₂, hturn₁, hturn₀, hturn]; rfl
  apply Act.Upholds.bind (tftp_spared st.image h₂)
  intro _ m₃ h₃ himage
  obtain ⟨himage, hturn₃⟩ := himage
  have hchecksumTurn : m₃.turn = Question.checksum.turn := by rw [hturn₃, himageTurn]; rfl
  apply Act.Upholds.bind (tftp_spared st.checksum h₃)
  intro _ m₄ h₄ hchecksum
  obtain ⟨hchecksum, hturn₄⟩ := hchecksum
  apply Act.Upholds.bind (echo_spared _ h₄)
  intro _ m₅ h₅ hsaid₅
  obtain ⟨hworld₅, hturn₅⟩ := hsaid₅
  apply Act.Upholds.bind (tell_spared h₅)
  intro _ m₆ h₆ hlisted
  obtain ⟨hworld₆, hlisted, hturn₆⟩ := hlisted
  apply Act.Upholds.bind (tell_spared h₆)
  intro _ m₇ h₇ htest
  obtain ⟨hworld₇, htest, hturn₇⟩ := htest
  apply Act.Upholds.bind (imageBytes_spared st.image h₇)
  intro size m₈ h₈ hsize
  obtain ⟨hworld₈, hsize, hturn₈⟩ := hsize
  apply Act.Upholds.bind (tell_spared h₈)
  intro device m₉ h₉ hdevice
  obtain ⟨hworld₉, hdevice, hturn₉⟩ := hdevice
  apply Act.Upholds.require_bind h₉
  intro hsome
  apply Act.Upholds.require_bind h₉
  intro hfits
  apply Act.Upholds.pure h₉
  have hend : m₉.world = m₅.world := by rw [hworld₉, hworld₈, hworld₇, hworld₆]
  have hfiles : m₉.world.files = workdir m.world.files st (answers Question.image.turn).content
      (answers Question.checksum.turn).content := by
    rw [hend, hworld₅, hchecksum, himage, hworld₂, hremoved, hworld₀, himageTurn, hchecksumTurn]
    rfl
  have hprompt : m₉.turn = Question.prompt.turn := by
    rw [hturn₉, hturn₈, hturn₇, hturn₆, hturn₅, hturn₄, hchecksumTurn]
    rfl
  have hexpanded : ∃ image, expanded T st.image m₉.world = some image := by
    rw [hworld₉, hworld₈, hworld₇]
    exact Option.map_eq_some_iff.mp htest |>.imp fun _ h => h.1
  obtain ⟨image, hexpanded⟩ := hexpanded
  have hlength : size = some image.length := by
    rw [hworld₉, hworld₈] at hexpanded
    rw [hexpanded] at hsize
    rcases hsize with hnone | hlength
    · rw [hnone] at hsome
      cases hsome
    · exact hlength
  have hdevice' : device = old.length := by
    rw [h₈.blocks, hold] at hdevice
    exact (Option.some.inj hdevice).symm
  refine ⟨image, hfiles, ⟨?_, ?_, ?_⟩, hexpanded, hprompt⟩
  · rw [hend]
    exact checksum_listed hlisted
  · exact Option.bind_eq_some_iff.mp hexpanded
  · rw [hlength, hdevice'] at hfits
    exact of_decide_eq_true hfits

/-! ### The write -/

/-- However the script ends, the devices are as before or the target is flashed. -/
structure Safe (T : Tools) (c : Config) (args : List Bytes) (answers : ℕ → Answer) (w : World) (m : Machine) : Prop where
  blocks : m.world.blocks = w.blocks ∨ Flashed T c args w answers m.world.blocks
  told : m.answers = answers

theorem Spared.safe (h : Spared answers w m) : Safe T c args answers w m := ⟨.inl h.blocks, h.told⟩

/-- The target is flashed. -/
structure Done (T : Tools) (c : Config) (args : List Bytes) (answers : ℕ → Answer) (w : World) (m : Machine) : Prop where
  blocks : Flashed T c args w answers m.world.blocks
  told : m.answers = answers

theorem Done.safe (h : Done T c args answers w m) : Safe T c args answers w m := ⟨.inr h.blocks, h.told⟩

theorem echo_done (text : Bytes) (h : Done T c args answers w m) :
    Act.Upholds (Safe T c args answers w) (echo text) m fun _ m' => Done T c args answers w m' := by
  constructor
  · have hdone : Done T c args answers w (echo text m).2 := ⟨h.blocks, h.told⟩
    exact hdone.safe
  · intro _ m' hm'
    cases hm'
    exact ⟨h.blocks, h.told⟩

theorem sync_done (h : Done T c args answers w m) :
    Act.Upholds (Safe T c args answers w) sync m fun _ m' => Done T c args answers w m' := by
  have hsame : ∀ events, Done T c args answers w (m.moved events m.world) := fun _ => ⟨h.blocks, h.told⟩
  unfold sync command
  apply Session.upholds_ask
  · split
    · exact (hsame _).safe
    · split
      · exact (hsame _).safe
      · exact (hsame _).safe
  · intro _ hret
    split
    · exact hsame _
    · split
      · exact hsame _
      · exact hsame _

theorem reread_done (h : Done T c args answers w m) :
    Act.Upholds (Safe T c args answers w) reread m fun _ m' => Done T c args answers w m' := by
  have hsame : ∀ events, Done T c args answers w (m.moved events m.world) := fun _ => ⟨h.blocks, h.told⟩
  unfold reread
  apply Session.upholds_ask
  · split
    · exact (hsame _).safe
    · exact (hsame _).safe
  · intro _ hret
    split
    · exact hsame _
    · exact hsame _

/-- The pipeline may be cut off or fail anywhere; a part of the image may then be on the target. -/
theorem writeImage_done {old image : Bytes} (h : Spared answers w m)
    (ha : Approved T c args w answers st target old image) (hturn : m.turn = writeTurn st)
    (himage : expanded T st.image m.world = some image) :
    Act.Upholds (Safe T c args answers w) (writeImage T st.image target) m fun _ m' => Done T c args answers w m' := by
  have hburned : ∀ events, Done T c args answers w
      (m.moved events (burned target (piped m.next ((expanded T st.image m.world).getD [])) m.world)) := by
    intro events
    refine ⟨⟨st, target, old, image, ha, ?_⟩, h.told⟩
    show Function.update m.world.blocks target _ = _
    rw [h.blocks, ha.whole.block, himage, h.answer, hturn]
    rfl
  unfold writeImage command
  apply Session.upholds_ask
  · split
    · exact (hburned _).safe
    · split
      · exact (hburned _).safe
      · exact (hburned _).safe
  · intro _ hret
    split
    · exact hburned _
    · split
      · exact hburned _
      · exact hburned _

theorem burn_done {old image : Bytes} {i d : ℕ} (h : Spared answers w m)
    (ha : Confirmed st answers → Approved T c args w answers st target old image)
    (hturn : m.turn = Question.prompt.turn) (himage : expanded T st.image m.world = some image) :
    Act.Upholds (Safe T c args answers w) (burn T st target i d) m fun _ m' => Done T c args answers w m' := by
  have hsay : ∀ text m, Spared answers w m → Act.Upholds (Safe T c args answers w) (echo text) m fun _ m' =>
      Spared answers w m' ∧ m'.world = m.world ∧ m'.turn = m.turn :=
    fun text m hm => (echo_spared text hm).weaken fun _ hs => hs.safe
  unfold burn
  apply Act.Upholds.bind (hsay _ _ h)
  intro _ m₀ _ hm₀
  apply Act.Upholds.bind (hsay _ _ hm₀.1)
  intro _ m₁ _ hm₁
  apply Act.Upholds.bind (hsay _ _ hm₁.1)
  intro _ m₂ _ hm₂
  apply Act.Upholds.bind (hsay _ _ hm₂.1)
  intro _ m₃ _ hm₃
  have hprompt : m₃.turn = Question.prompt.turn := by rw [hm₃.2.2, hm₂.2.2, hm₁.2.2, hm₀.2.2, hturn]
  apply Act.Upholds.bind ((confirm_spared hm₃.1 hprompt).weaken fun _ hs => hs.safe)
  intro _ m₄ _ hconfirm
  obtain ⟨hm₄, hworld₄, hturn₄, hconfirmed⟩ := hconfirm
  apply Act.Upholds.bind (hsay _ _ hm₄)
  intro _ m₅ _ hm₅
  have himage₅ : expanded T st.image m₅.world = some image := by
    rw [hm₅.2.1, hworld₄, hm₃.2.1, hm₂.2.1, hm₁.2.1, hm₀.2.1]
    exact himage
  apply Act.Upholds.bind (writeImage_done hm₅.1 (ha hconfirmed) (hm₅.2.2.trans hturn₄) himage₅)
  intro _ m₆ _ hm₆
  apply Act.Upholds.bind (sync_done hm₆)
  intro _ m₇ _ hm₇
  apply Act.Upholds.bind (reread_done hm₇)
  intro _ m₈ _ hm₈
  exact echo_done _ hm₈

/-! ### The choice of the target -/

theorem detectLoop_ok {ds : List Sysdev} {found : Bytes} (h : detectLoop found ds = .ok target) :
    (found = [] → Detected ds target) ∧ (found ≠ [] → target = found ∧ ds.filter Sysdev.isEmmc = []) := by
  induction ds generalizing found with
  | nil =>
    unfold detectLoop at h
    split at h
    · cases h
    · rename_i hfound
      cases h
      exact ⟨fun hnil => by simp [hnil] at hfound, fun _ => ⟨rfl, rfl⟩⟩
  | cons d ds ih =>
    unfold detectLoop at h
    by_cases hd : d.isEmmc = true
    · rw [if_pos hd] at h
      split at h
      · rename_i hfound
        have hdev : ascii "/dev/" ++ d.name ≠ [] := by simp [ascii]
        obtain ⟨htarget, hrest⟩ := (ih h).2 hdev
        refine ⟨fun _ => ⟨d, ?_, htarget⟩, fun hne => absurd (List.isEmpty_iff.mp hfound) hne⟩
        rw [List.filter_cons_of_pos hd, hrest]
      · cases h
    · rw [if_neg hd] at h
      unfold Detected at ih ⊢
      rw [List.filter_cons_of_neg hd]
      exact ih h

/-- A target that passes the checks is a whole device. -/
theorem checkTarget_whole (h : checkTarget w target = .ok ()) : ∃ old, Whole w target old := by
  unfold checkTarget at h
  split at h
  · cases h
  rename_i hblock
  split at h
  · cases h
  rename_i hmmc
  split at h
  · cases h
  rename_i hwhole
  have hsome : (w.blocks target).isSome = true := by simpa [Option.isSome_iff_ne_none] using hblock
  obtain ⟨old, hold⟩ := Option.isSome_iff_exists.mp hsome
  exact ⟨old, hold, by simpa using hmmc, by simpa using hwhole⟩

theorem select_whole (h : select c args w = .ok (st, target)) :
    (∃ old, Whole w target old) ∧ (st.target = [] → Detected w.sysfs target) := by
  unfold select at h
  simp only [bind_ok] at h
  obtain ⟨s, -, h⟩ := h
  split at h
  · cases h
  · simp only [bind_ok, pure_ok] at h
    obtain ⟨chosen, hchoose, ⟨⟩, hcheck, hpair⟩ := h
    cases hpair
    refine ⟨checkTarget_whole hcheck, fun hnone => ?_⟩
    rw [chooseTarget, hnone] at hchoose
    exact (detectLoop_ok hchoose).1 rfl

end

/-- In every environment and however the script ends, the only device it may have written is one with
the name of a whole MMC device that the grep has not shown as mounted, after a download with a checksum
file that held, an image that fits, and `--yes` or the line at the prompt. If it ends normally the front
of that device is what the decompressor put out. -/
theorem flash_only_approved (T : Tools) (c : Config) (args : List Bytes) (answers : ℕ → Answer) (w : World) :
    ((flash T c args (Session.opened answers w)).2.world.blocks = w.blocks ∨
      Flashed T c args w answers (flash T c args (Session.opened answers w)).2.world.blocks) ∧
    ((flash T c args (Session.opened answers w)).1 = .ret () →
      Flashed T c args w answers (flash T c args (Session.opened answers w)).2.world.blocks) := by
  have hopened : Spared answers w (Session.opened answers w : Machine) := ⟨rfl, rfl⟩
  have hall : Act.Upholds (Safe T c args answers w) (flash T c args) (Session.opened answers w)
      fun _ m => Done T c args answers w m := by
    unfold flash
    apply Act.Upholds.get
    apply Act.Upholds.lift_bind hopened.safe
    intro chosen hselect
    obtain ⟨st, target⟩ := chosen
    obtain ⟨hwhole, hdetected⟩ := select_whole hselect
    obtain ⟨old, hwhole⟩ := hwhole
    apply Act.Upholds.bind ((grepMounts_spared hopened rfl).weaken fun _ hs => hs.safe)
    intro mounted m₁ hm₁' hgrep
    obtain ⟨hm₁, hworld₁, hturn₁, hunmounted⟩ := hgrep
    apply Act.Upholds.require_bind hm₁'
    intro hfree
    apply Act.Upholds.bind ((fetch_spared hm₁ hwhole.block (hturn₁.trans rfl)).weaken fun _ hs => hs.safe)
    intro sizes m₂ _ hfetched
    obtain ⟨hm₂, image, hfiles, hfetched, himage, hprompt⟩ := hfetched
    have happroved : Confirmed st answers → Approved T c args w answers st target old image := by
      intro hconfirmed
      rw [hfiles, hworld₁] at hfetched
      exact ⟨hselect, hwhole, hdetected, hunmounted (by simpa using hfree), hfetched, hconfirmed⟩
    exact burn_done hm₂ happroved hprompt himage
  constructor
  · exact hall.kept.blocks
  · intro hret
    exact (hall.post () _ (Act.run_eq hret)).blocks

end Monutchee.Flash
