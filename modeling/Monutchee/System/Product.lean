import Mathlib.Data.List.Perm.Subperm
import Monutchee.System.World

/-!
# The installed product policy (backend.hpp, storage.cpp:109-162)

The profile that root installs, as a whole, and the two loaders that accept it. The Backend
reads only a part of it, `Product.profile`; the native adapter reads the rest. What Glaze
makes of the text of a policy file is given with the file, so `loadProfile` and
`loadBootPreferences` are the checks that follow the decoding.
-/

namespace Monutchee.System
open Validation

structure InterfacePolicy where
  name : Bytes
  deviceTreeNode : Bytes := []
  deriving DecidableEq, Repr

/-- `Profile` (`backend.hpp:20-39`), less the sensors. -/
structure Product where
  settingsUser : Bytes := []
  controlUser : Bytes := []
  stateDirectory : Bytes := []
  activeSettings : Bytes := []
  runtimeRoot : Bytes := ascii "/run/mnc"
  runtimeEtcDirectory : Bytes := []
  storageStatusFile : Bytes := []
  interfaces : List InterfacePolicy := []
  defaults : Configuration := {}
  sshSocket : Bytes := ascii "sshd.socket"
  sshService : Bytes := ascii "sshd.service"
  ntpUnits : List Bytes := [ascii "systemd-timesyncd.service"]
  irigUnits : List Bytes := []
  ptpUnits : List Bytes := []
  ptpUnitTemplates : List Bytes := []
  resetPaths : List Bytes := []
  bootPreferences : Option BootPreferences := none
  deriving DecidableEq, Repr

namespace Product

def interfaceNames (p : Product) : List Bytes := p.interfaces.map (·.name)

/-- What the Backend is constructed with. -/
def profile (p : Product) : Profile where
  stateDirectory := p.stateDirectory
  activeSettings := p.activeSettings
  storageStatusFile := p.storageStatusFile
  interfaces := p.interfaceNames
  defaults := p.defaults
  resetPaths := p.resetPaths
  bootPreferences := p.bootPreferences

end Product

/-! ### Paths -/

/-- fs::path::lexically_normal: the names that remain, and whether a separator ends the
path. A final "." or ".." leaves the separator before it. -/
structure NormalPath where
  absolute : Bool
  names : List Bytes
  trailing : Bool
  deriving DecidableEq, Repr

def isAbsolute (p : Bytes) : Bool := p.head? == some 47

def lexicallyNormal (p : Bytes) : NormalPath :=
  let parts := splitPath [] p
  let names := resolve (isAbsolute p) [] parts
  let last := parts.getLastD []
  { absolute := isAbsolute p
    names := names
    trailing := (last == [] || last == ascii "." || last == ascii "..") &&
      names != [] && names.getLast? != some (ascii "..") }

/-- The text of a normal path. -/
def NormalPath.text (p : NormalPath) : Bytes :=
  if !p.absolute && p.names == [] then ascii "."
  else
    (if p.absolute then [47] else []) ++ (p.names.intersperse [47]).flatten ++
      if p.trailing then [47] else []

/-- The last element of a path and the elements before it, as fs::path splits them. -/
def filename (p : Bytes) : Bytes := (splitPath [] p).getLastD []

def parentNames (p : Bytes) : List Bytes := (splitPath [] p).dropLast.filter (· ≠ [])

/-! ### Policy files -/

/-- A policy file as lstat, readFile and decode find it. -/
structure PolicyFile (α : Type) where
  regular : Bool := true
  uid : ℕ := 0
  mode : ℕ := 0o644
  content : Except Error α

def PolicyFile.read {α : Type} (f : PolicyFile α) (message : String) : Except Error α :=
  if !f.regular || f.uid != 0 || f.mode &&& 0o022 != 0 then
    .error ⟨.permissionDenied, ascii message⟩
  else f.content

/-! ### loadProfile (storage.cpp:109-137) -/

def runtimeByte (c : UInt8) : Bool := isAlnum c || c == 47 || c == 95 || c == 45

/-- The runtime root is one plain name below /run. -/
def checkRuntimeRoot (p : Product) : Except Error Unit :=
  let root := p.runtimeRoot
  check (isAbsolute root && parentNames root == [ascii "run"] && filename root != [] &&
    filename root != ascii "." && filename root != ascii ".." && root.all runtimeByte)
    "invalid runtime root"

def checkRuntimePaths (p : Product) : Except Error Unit :=
  check ((p.runtimeEtcDirectory.isEmpty || p.runtimeEtcDirectory == p.runtimeRoot ++ ascii "/os") &&
    (p.storageStatusFile.isEmpty ||
      p.storageStatusFile == p.runtimeRoot ++ ascii "/storage/status.json"))
    "unsupported runtime storage paths"

def checkComplete (p : Product) : Except Error Unit :=
  check (!(p.stateDirectory.isEmpty || p.activeSettings.isEmpty || p.settingsUser.isEmpty ||
    p.controlUser.isEmpty)) "incomplete system profile"

/-- The top-level directories that no reset may delete. -/
def protectedNames : List (List Bytes) :=
  [[], [ascii "etc"], [ascii "var"], [ascii "data"], [ascii "usr"], [ascii "root"]]

/-- The loop over reset_paths (storage.cpp:129-135). -/
def safeResetPath (state : NormalPath) (path : Bytes) : Bool :=
  let target := lexicallyNormal path
  target.absolute && !(protectedNames.contains target.names && !target.trailing) &&
    target != state && !(target.text ++ [47]).isPrefixOf state.text

def loadProfile (file : Except Error (PolicyFile Product)) : Except Error Product := do
  let f ← file
  let p ← f.read "system profile must be a root-owned, non-writable regular file"
  validate p.defaults
  checkRuntimeRoot p
  checkRuntimePaths p
  checkComplete p
  check (p.resetPaths.all (safeResetPath (lexicallyNormal p.stateDirectory)))
    "unsafe reset path in product profile"
  return p

/-! ### loadBootPreferences (storage.cpp:138-162) -/

def withHostname (c : Configuration) (name : Bytes) : Configuration :=
  { c with system := { c.system with hostname := name } }

/-- Every managed interface is configured exactly once. -/
def checkInterfaces (p : Product) (c : Configuration) : Except Error Unit := do
  check (c.system.network.length == p.interfaces.length)
    "boot preferences must include all managed interfaces"
  check (p.interfaces.all fun policy =>
    c.system.network.countP (fun n => n.interface == policy.name) == 1) "invalid boot interface"

def loadBootPreferences (p : Product) (file : Except Error (PolicyFile BootPreferences)) :
    Except Error Product := do
  let f ← file
  let boot ← f.read "boot preferences must be root-owned and non-writable"
  check (boot.schemaVersion == 1 && !boot.managedHostname.isEmpty) "invalid boot preferences"
  let boot := { boot with
    factory := withHostname boot.factory boot.managedHostname
    initial := withHostname boot.initial boot.managedHostname }
  validate boot.factory
  validate boot.initial
  checkInterfaces p boot.factory
  checkInterfaces p boot.initial
  return { p with defaults := boot.factory, bootPreferences := some boot }

-- The paths that the loader refuses, and two spellings of the state directory that it accepts.
example : (["/", "/etc", "/data/../etc", "/test/private", "/test", "test/product"].map fun p =>
    safeResetPath (lexicallyNormal (ascii "/test/private")) (ascii p)) =
      [false, false, false, false, false, false] := by decide
example : (["/test/product", "/test/private/", "/test/private/state.json"].map fun p =>
    safeResetPath (lexicallyNormal (ascii "/test/private")) (ascii p)) = [true, true, true] := by
  decide

end Monutchee.System
