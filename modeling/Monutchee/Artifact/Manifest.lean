import Monutchee.Lib.Json
import Monutchee.Lib.Checked
import Mathlib.Data.List.Sort
import Mathlib.Data.List.Lex
import Mathlib.Order.Defs.LinearOrder

/-!
# The manifest of a station artifact (mnc-artifact.py:44-59, 116-286)

`validate_manifest` decides which JSON values are manifests. What it asks for is collected in
`Accepted`, one field for each check; the functions of the module appear in the later modules
only through it. `repr` and `datetime.fromisoformat` are the interpreter's: the first only
words messages, of the second nothing is assumed.
-/

namespace Monutchee.Artifact
open Monutchee.Lib

structure Python where
  repr : Json → Text
  /-- `none` is a ValueError; else the UTC offset of the result in seconds, if it has one. -/
  fromisoformat : Text → Option (Option ℚ)

inductive Error where
  | artifactError (message : Text)
  | keyError
  | typeError
  | readError
  | valueError
  deriving DecidableEq

def raise {α : Type} (message : Text) : Except Error α := .error (.artifactError message)

def SCHEMA : Text := text "mnc-station-artifact"
def FORMAT_VERSION : ℚ := 2
def MANIFEST_NAME : Text := text "manifest.json"
def SIGNATURE_NAME : Text := text "manifest.sig"
def RESERVED_NAMES : List Text := [MANIFEST_NAME, SIGNATURE_NAME]

/-- `sorted` of a set of texts. -/
def sortedTexts (l : List Text) : List Text := l.dedup.insertionSort (· ≤ ·)

def joined (separator : Text) (l : List Text) : Text := separator.intercalate l

/-! ### Paths -/

def slash : ℕ := 47

/-- Control characters, which no path and no text may hold. -/
def control (c : ℕ) : Bool := c < 0x20 || c == 0x7F

/-- A `PurePosixPath`: it drops empty parts and `.`, and keeps a leading slash as its root. -/
structure PurePosixPath where
  root : Text
  parts : List Text
  deriving DecidableEq

def purePosixPath (value : Text) : PurePosixPath where
  root := if value.head? = some slash then [slash] else []
  parts := (value.splitOn slash).filter fun part => part ≠ [] && part ≠ text "."

def PurePosixPath.isAbsolute (p : PurePosixPath) : Bool := !p.root.isEmpty

def PurePosixPath.asPosix (p : PurePosixPath) : Text :=
  if p.root.isEmpty && p.parts.isEmpty then text "." else p.root ++ joined [slash] p.parts

/-- Every caller hands over a string, so `isinstance` always passes. -/
def safeRelativePath (lib : Python) (value : Text) : Except Error PurePosixPath := do
  refuse value.isEmpty (.artifactError (text "artifact paths must be non-empty strings"))
  refuse (value.contains 92 || value.contains 58 || value.any control)
    (.artifactError (text "unsafe artifact path: " ++ lib.repr (.str value)))
  let parts := value.splitOn slash
  refuse (parts.any fun part => part ∈ [[], text ".", text ".."])
    (.artifactError (text "unsafe artifact path: " ++ lib.repr (.str value)))
  let path := purePosixPath value
  refuse path.isAbsolute (.artifactError (text "unsafe artifact path: " ++ lib.repr (.str value)))
  return path

def components (name : Text) : List Text := name.splitOn slash

theorem components_injective : Function.Injective components := by
  intro a b h
  have ha : [slash].intercalate (a.splitOn slash) = a := List.intercalate_splitOn slash
  have hb : [slash].intercalate (b.splitOn slash) = b := List.intercalate_splitOn slash
  unfold components at h
  rw [← ha, h, hb]

/-- What `safe_relative_path` lets pass. -/
structure SafePath (value : Text) : Prop where
  nonempty : value ≠ []
  noBackslash : 92 ∉ value
  noColon : 58 ∉ value
  printable : ∀ c ∈ value, control c = false
  parts : ∀ part ∈ value.splitOn slash, part ≠ [] ∧ part ≠ text "." ∧ part ≠ text ".."

theorem head_splitOn {value : Text} (h : value.head? = some slash) : [] ∈ value.splitOn slash := by
  obtain ⟨rest, rfl⟩ : ∃ rest, value = slash :: rest := by
    cases value with
    | nil => cases h
    | cons c rest =>
      cases h
      exact ⟨rest, rfl⟩
  have := List.splitOn_append_cons_self (a := slash) [] rest
  rw [List.nil_append, List.splitOn_nil] at this
  rw [this]
  exact List.mem_cons_self ..

theorem SafePath.relative {value : Text} (h : SafePath value) : (purePosixPath value).root = [] := by
  unfold purePosixPath
  rw [if_neg]
  intro hs
  exact (h.parts [] (head_splitOn hs)).1 rfl

theorem SafePath.parts_eq {value : Text} (h : SafePath value) :
    (purePosixPath value).parts = value.splitOn slash := by
  unfold purePosixPath
  rw [List.filter_eq_self]
  intro part hp
  obtain ⟨h0, h1, -⟩ := h.parts part hp
  simp [h0, h1]

/-- A safe path is printed as it was given. -/
theorem SafePath.asPosix {value : Text} (h : SafePath value) :
    (purePosixPath value).asPosix = value := by
  have hne : value.splitOn slash ≠ [] := List.splitOn_ne_nil slash value
  unfold PurePosixPath.asPosix
  rw [h.relative, h.parts_eq, if_neg (by simp [hne])]
  exact List.intercalate_splitOn slash

theorem safeRelativePath_ok {lib : Python} {value : Text} {path : PurePosixPath} :
    safeRelativePath lib value = .ok path ↔ SafePath value ∧ path = purePosixPath value := by
  unfold safeRelativePath
  simp only [bind_ok, refuse_ok, pure_ok]
  constructor
  · rintro ⟨⟨⟩, h0, ⟨⟩, h1, ⟨⟩, h2, ⟨⟩, -, rfl⟩
    simp only [Bool.or_eq_false_iff, List.any_eq_false, List.contains_eq_mem,
      decide_eq_false_iff_not] at h1 h2
    refine ⟨⟨by simpa using h0, h1.1.1, h1.1.2, fun c hc => by simpa using h1.2 c hc, ?_⟩, rfl⟩
    intro part hp
    have := h2 part hp
    simpa using this
  · rintro ⟨h, rfl⟩
    refine ⟨(), by simpa using h.nonempty, (), ?_, (), ?_, (), ?_, rfl⟩
    · simp only [Bool.or_eq_false_iff, List.any_eq_false, List.contains_eq_mem,
        decide_eq_false_iff_not]
      exact ⟨⟨h.noBackslash, h.noColon⟩, fun c hc => by simp [h.printable c hc]⟩
    · rw [List.any_eq_false]
      intro part hp
      simpa using h.parts part hp
    · simp [PurePosixPath.isAbsolute, h.relative]

/-! ### Single fields -/

def alphanumeric (c : ℕ) : Bool :=
  (65 ≤ c && c ≤ 90) || (97 ≤ c && c ≤ 122) || (48 ≤ c && c ≤ 57)

/-- The class `[A-Za-z0-9._+-]`. -/
def identifierCharacter (c : ℕ) : Bool :=
  alphanumeric c || c == 46 || c == 95 || c == 43 || c == 45

/-- `IDENTIFIER_RE.fullmatch`. -/
def identifierFullmatch : Text → Bool
  | [] => false
  | c :: rest => alphanumeric c && rest.all identifierCharacter

/-- The class `[0-9a-f]`. -/
def hexDigit (c : ℕ) : Bool := (48 ≤ c && c ≤ 57) || (97 ≤ c && c ≤ 102)

/-- `SHA256_RE.fullmatch`. -/
def sha256Fullmatch (s : Text) : Bool := s.length == 64 && s.all hexDigit

def singleLine (s : Text) : Bool := !s.isEmpty && !s.any control

def str? : Json → Option Text
  | .str s => some s
  | _ => none

def obj? : Json → Option (List (Text × Json))
  | .obj ps => some ps
  | _ => none

@[simp] theorem str?_eq {v : Json} {s : Text} : str? v = some s ↔ v = .str s := by
  cases v <;> simp [str?]

@[simp] theorem obj?_eq {v : Json} {ps : List (Text × Json)} : obj? v = some ps ↔ v = .obj ps := by
  cases v <;> simp [obj?]

/-- A string that passes a test, or the error. -/
def stringThat (test : Text → Bool) (message : Text) (value : Json) : Except Error Text :=
  match (str? value).filter test with
  | some s => .ok s
  | none => raise message

theorem stringThat_ok {test : Text → Bool} {message s : Text} {value : Json} :
    stringThat test message value = .ok s ↔ value = .str s ∧ test s = true := by
  unfold stringThat
  cases h : (str? value).filter test with
  | none =>
    rw [Option.filter_eq_none_iff] at h
    constructor
    · intro he
      cases he
    · rintro ⟨rfl, ht⟩
      exact absurd ht (h s rfl)
  | some s' =>
    rw [Option.filter_eq_some_iff, str?_eq] at h
    constructor
    · intro he
      cases he
      exact h
    · rintro ⟨rfl, -⟩
      cases h.1
      rfl

def validateIdentifier (lib : Python) (label : Text) (value : Json) : Except Error Text :=
  stringThat identifierFullmatch (label ++ text " is not a valid identifier: " ++ lib.repr value) value

def validateText (label : Text) (value : Json) : Except Error Text :=
  stringThat singleLine (label ++ text " must be a non-empty single-line string") value

def validateCreatedUtc (lib : Python) (value : Json) : Except Error Text := do
  let value ← validateText (text "artifact.createdUtc") value
  refuse (value.getLast? ≠ some 90)
    (.artifactError (text "artifact.createdUtc must be an ISO-8601 UTC value ending in Z"))
  match lib.fromisoformat (value.dropLast ++ text "+00:00") with
  | none => raise (text "artifact.createdUtc is invalid: " ++ lib.repr (.str value))
  | some offset => do
    refuse (offset ≠ some 0) (.artifactError (text "artifact.createdUtc must use UTC"))
    return value

/-- What `validate_created_utc` lets pass. -/
def UtcTime (lib : Python) (s : Text) : Prop :=
  singleLine s = true ∧ s.getLast? = some 90 ∧
    lib.fromisoformat (s.dropLast ++ text "+00:00") = some (some 0)

theorem validateCreatedUtc_ok {lib : Python} {value : Json} {s : Text} :
    validateCreatedUtc lib value = .ok s ↔ value = .str s ∧ UtcTime lib s := by
  unfold validateCreatedUtc validateText UtcTime
  simp only [bind_ok, refuse_ok, stringThat_ok]
  constructor
  · rintro ⟨t, ⟨rfl, hline⟩, ⟨⟩, hz, hm⟩
    split at hm
    · cases hm
    · rename_i offset hiso
      simp only [bind_ok, refuse_ok, pure_ok] at hm
      obtain ⟨⟨⟩, hoffset, rfl⟩ := hm
      have h0 : offset = some 0 := by simpa using hoffset
      rw [h0] at hiso
      exact ⟨rfl, hline, by simpa using hz, hiso⟩
  · rintro ⟨rfl, hline, hz, hiso⟩
    refine ⟨s, ⟨rfl, hline⟩, (), by simpa using hz, ?_⟩
    rw [hiso]
    simp only [bind_ok, refuse_ok, pure_ok]
    exact ⟨(), by simp, trivial⟩

/-- `value[key]` on a dictionary. -/
def item (ps : List (Text × Json)) (key : Text) : Except Error Json :=
  match ps.lookup key with
  | some v => .ok v
  | none => .error .keyError

@[simp] theorem item_ok {ps : List (Text × Json)} {key : Text} {v : Json} :
    item ps key = .ok v ↔ ps.lookup key = some v := by
  unfold item
  cases ps.lookup key <;> simp

def keys (ps : List (Text × Json)) : List Text := ps.map Prod.fst

def requireExactKeys (label : Text) (value : List (Text × Json)) (required optional : List Text) :
    Except Error Unit := do
  let missing := required.filter fun k => k ∉ keys value
  let extra := (keys value).filter fun k => k ∉ required ∧ k ∉ optional
  refuse (missing ≠ []) (.artifactError
    (label ++ text " is missing fields: " ++ joined (text ", ") (sortedTexts missing)))
  refuse (extra ≠ []) (.artifactError
    (label ++ text " has unsupported fields: " ++ joined (text ", ") (sortedTexts extra)))

/-- What `require_exact_keys` lets pass. -/
structure ExactKeys (value : List (Text × Json)) (required optional : List Text) : Prop where
  present : ∀ k ∈ required, k ∈ keys value
  known : ∀ k ∈ keys value, k ∈ required ∨ k ∈ optional

theorem requireExactKeys_ok {label : Text} {value : List (Text × Json)}
    {required optional : List Text} {u : Unit} :
    requireExactKeys label value required optional = .ok u ↔ ExactKeys value required optional := by
  unfold requireExactKeys
  simp only [bind_ok, refuse_ok, decide_eq_false_iff_not, not_not, List.filter_eq_nil_iff,
    decide_eq_true_eq]
  constructor
  · rintro ⟨⟨⟩, hm, he⟩
    refine ⟨hm, fun k hk => ?_⟩
    have := he k hk
    tauto
  · rintro ⟨hp, hk⟩
    refine ⟨(), hp, fun k hmem => ?_⟩
    have := hk k hmem
    tauto

/-! ### The whole manifest -/

def dictionary (message : Text) (value : Json) : Except Error (List (Text × Json)) :=
  match obj? value with
  | some ps => .ok ps
  | none => raise message

@[simp] theorem dictionary_ok {message : Text} {value : Json} {ps : List (Text × Json)} :
    dictionary message value = .ok ps ↔ value = .obj ps := by
  cases value <;> simp [dictionary, obj?, raise]

def rootFields : List Text :=
  [text "schema", text "formatVersion", text "artifact", text "executor", text "files"]

def identifierFields : List Text :=
  [text "name", text "vendor", text "operation", text "product", text "machine", text "buildId"]

def artifactFields : List Text :=
  [text "name", text "vendor", text "operation", text "product", text "machine", text "version",
    text "buildId", text "createdUtc"]

def executorFields : List Text := [text "type", text "entrypoint"]

def descriptorFields : List Text := [text "size", text "sha256", text "mode"]

def fileModes : List Text := [text "0644", text "0755"]

/-- `isinstance(size, int)`, not a bool, not negative. -/
def sizeValid : Json → Bool
  | .int n => 0 ≤ n
  | _ => false

/-- `mode in {"0644", "0755"}`: a list or a dictionary cannot be looked up in a set. -/
def modeValid : Json → Except Error Bool
  | .arr _ => .error .typeError
  | .obj _ => .error .typeError
  | .str s => .ok (s ∈ fileModes)
  | _ => .ok false

def validateArtifact (lib : Python) (value : Json) : Except Error Unit := do
  let artifact ← dictionary (text "artifact must be an object") value
  requireExactKeys (text "artifact") artifact artifactFields []
  identifierFields.forM fun field => do
    let value ← item artifact field
    let _ ← validateIdentifier lib (text "artifact." ++ field) value
    return ()
  let version ← item artifact (text "version")
  let _ ← validateText (text "artifact.version") version
  let created ← item artifact (text "createdUtc")
  let _ ← validateCreatedUtc lib created
  return ()

/-- A path field of the executor, as it is compared with the files. -/
def executorPath (lib : Python) (label : Text) (value : Json) : Except Error Text := do
  let value ← validateText label value
  let path ← safeRelativePath lib value
  return path.asPosix

/-- The entry point and, if the executor has one, the TFTP root. -/
def validateExecutor (lib : Python) (value : Json) : Except Error (Text × Option Text) := do
  let executor ← dictionary (text "executor must be an object") value
  requireExactKeys (text "executor") executor executorFields [text "tftpRoot"]
  let kind ← item executor (text "type")
  let _ ← validateIdentifier lib (text "executor.type") kind
  let entry ← item executor (text "entrypoint")
  let entrypoint ← executorPath lib (text "executor.entrypoint") entry
  match executor.lookup (text "tftpRoot") with
  | none => return (entrypoint, none)
  | some root => do
    let tftpRoot ← executorPath lib (text "executor.tftpRoot") root
    return (entrypoint, some tftpRoot)

def validateFile (lib : Python) (file : Text × Json) : Except Error Unit := do
  let path := file.1
  let _ ← safeRelativePath lib path
  refuse (path ∈ RESERVED_NAMES) (.artifactError (text "files contains reserved path: " ++ path))
  let descriptor ← dictionary (text "file descriptor must be an object: " ++ path) file.2
  requireExactKeys (text "files[" ++ lib.repr (.str path) ++ text "]") descriptor descriptorFields []
  let size ← item descriptor (text "size")
  refuse (!sizeValid size) (.artifactError (text "file size is invalid: " ++ path))
  let sha256 ← item descriptor (text "sha256")
  let _ ← stringThat sha256Fullmatch (text "file SHA-256 is invalid: " ++ path) sha256
  let mode ← item descriptor (text "mode")
  let known ← modeValid mode
  refuse (!known) (.artifactError (text "file mode is invalid: " ++ path))

/-- The entry point is an executable file of the manifest. -/
def checkEntrypoint (files : List (Text × Json)) (entrypoint : Text) : Except Error Unit := do
  refuse (entrypoint ∉ keys files)
    (.artifactError (text "executor entrypoint is absent from files: " ++ entrypoint))
  let file ← item files entrypoint
  -- the loop over the files has shown it to be an object
  let descriptor ← dictionary [] file
  let mode ← item descriptor (text "mode")
  refuse (str? mode ≠ some (text "0755"))
    (.artifactError (text "executor entrypoint is not executable: " ++ entrypoint))

def checkTftpRoot (files : List (Text × Json)) (tftpRoot : Option Text) : Except Error Unit :=
  match tftpRoot with
  | none => .ok ()
  | some root =>
    refuse (root ≠ [] && !(keys files).any fun path => (root ++ [slash]).isPrefixOf path)
      (.artifactError (text "executor tftpRoot has no files: " ++ root))

def validateManifest (lib : Python) (manifest : Json) : Except Error Json := do
  let root ← dictionary (text "manifest root must be an object") manifest
  requireExactKeys (text "manifest") root rootFields []
  let schema ← item root (text "schema")
  refuse (str? schema ≠ some SCHEMA)
    (.artifactError (text "unsupported manifest schema: " ++ lib.repr schema))
  let version ← item root (text "formatVersion")
  refuse (version.number? ≠ some FORMAT_VERSION)
    (.artifactError (text "unsupported manifest formatVersion: " ++ lib.repr version))
  let artifact ← item root (text "artifact")
  validateArtifact lib artifact
  let executor ← item root (text "executor")
  let (entrypoint, tftpRoot) ← validateExecutor lib executor
  let value ← item root (text "files")
  let files ← dictionary (text "files must be a non-empty object") value
  refuse files.isEmpty (.artifactError (text "files must be a non-empty object"))
  files.forM (validateFile lib)
  checkEntrypoint files entrypoint
  checkTftpRoot files tftpRoot
  return manifest

/-! ### What is accepted -/

structure ArtifactAccepted (lib : Python) (artifact : List (Text × Json)) : Prop where
  exact : ExactKeys artifact artifactFields []
  identifiers : ∀ field ∈ identifierFields, ∃ s,
    artifact.lookup field = some (.str s) ∧ identifierFullmatch s = true
  version : ∃ s, artifact.lookup (text "version") = some (.str s) ∧ singleLine s = true
  created : ∃ s, artifact.lookup (text "createdUtc") = some (.str s) ∧ UtcTime lib s

theorem validateArtifact_ok {lib : Python} {value : Json} {u : Unit} :
    validateArtifact lib value = .ok u ↔
      ∃ artifact, value = .obj artifact ∧ ArtifactAccepted lib artifact := by
  unfold validateArtifact validateText validateIdentifier
  simp only [bind_ok, dictionary_ok, requireExactKeys_ok, forM_ok, item_ok, stringThat_ok,
    validateCreatedUtc_ok]
  constructor
  · rintro ⟨artifact, rfl, ⟨⟩, hk, ⟨⟩, hi, version, hv, s, ⟨rfl, hs⟩, created, hc, t, ⟨rfl, ht⟩, -⟩
    refine ⟨artifact, rfl, hk, fun field hf => ?_, ⟨s, hv, hs⟩, ⟨t, hc, ht⟩⟩
    obtain ⟨v, hl, w, ⟨rfl, hw⟩, -⟩ := hi field hf
    exact ⟨w, hl, hw⟩
  · rintro ⟨artifact, rfl, hk, hi, ⟨s, hv, hs⟩, ⟨t, hc, ht⟩⟩
    refine ⟨artifact, rfl, (), hk, (), fun field hf => ?_, _, hv, s, ⟨rfl, hs⟩, _, hc, t,
      ⟨rfl, ht⟩, rfl⟩
    obtain ⟨w, hl, hw⟩ := hi field hf
    exact ⟨_, hl, w, ⟨rfl, hw⟩, rfl⟩

theorem executorPath_ok {lib : Python} {label path : Text} {value : Json} :
    executorPath lib label value = .ok path ↔
      value = .str path ∧ singleLine path = true ∧ SafePath path := by
  unfold executorPath validateText
  simp only [bind_ok, stringThat_ok, safeRelativePath_ok, pure_ok]
  constructor
  · rintro ⟨s, ⟨rfl, hline⟩, p, ⟨hsafe, rfl⟩, rfl⟩
    rw [hsafe.asPosix]
    exact ⟨rfl, hline, hsafe⟩
  · rintro ⟨rfl, hline, hsafe⟩
    exact ⟨path, ⟨rfl, hline⟩, _, ⟨hsafe, rfl⟩, hsafe.asPosix⟩

/-- The checks on the executor itself, with the two paths they read off it. -/
structure ExecutorAccepted (executor : List (Text × Json)) (entrypoint : Text)
    (tftpRoot : Option Text) : Prop where
  exact : ExactKeys executor executorFields [text "tftpRoot"]
  kind : ∃ s, executor.lookup (text "type") = some (.str s) ∧ identifierFullmatch s = true
  entry : executor.lookup (text "entrypoint") = some (.str entrypoint)
  entrySafe : singleLine entrypoint = true ∧ SafePath entrypoint
  root : executor.lookup (text "tftpRoot") = tftpRoot.map Json.str
  rootSafe : ∀ path ∈ tftpRoot, singleLine path = true ∧ SafePath path

theorem validateExecutor_ok {lib : Python} {value : Json} {entrypoint : Text}
    {tftpRoot : Option Text} :
    validateExecutor lib value = .ok (entrypoint, tftpRoot) ↔
      ∃ executor, value = .obj executor ∧ ExecutorAccepted executor entrypoint tftpRoot := by
  unfold validateExecutor validateIdentifier
  simp only [bind_ok, dictionary_ok, requireExactKeys_ok, item_ok, stringThat_ok, executorPath_ok]
  constructor
  · rintro ⟨executor, rfl, ⟨⟩, hk, kind, hkind, s, ⟨rfl, hs⟩, entry, hentry, path, ⟨rfl, hp⟩, h⟩
    refine ⟨executor, rfl, ?_⟩
    split at h
    · rename_i hroot
      cases h
      exact ⟨hk, ⟨s, hkind, hs⟩, hentry, hp, hroot, fun _ h => by cases h⟩
    · rename_i root hroot
      simp only [bind_ok, executorPath_ok, pure_ok] at h
      obtain ⟨r, ⟨rfl, hr⟩, he⟩ := h
      cases he
      exact ⟨hk, ⟨s, hkind, hs⟩, hentry, hp, hroot, fun _ h => by cases h; exact hr⟩
  · rintro ⟨executor, rfl, hk, ⟨s, hkind, hs⟩, hentry, hp, hroot, hr⟩
    refine ⟨executor, rfl, (), hk, _, hkind, s, ⟨rfl, hs⟩, _, hentry, entrypoint, ⟨rfl, hp⟩, ?_⟩
    rw [hroot]
    cases tftpRoot with
    | none => rfl
    | some r =>
      simp only [Option.map_some, bind_ok, executorPath_ok, pure_ok]
      exact ⟨r, ⟨rfl, hr r rfl⟩, rfl⟩

structure DescriptorAccepted (descriptor : List (Text × Json)) : Prop where
  exact : ExactKeys descriptor descriptorFields []
  size : ∃ n : ℕ, descriptor.lookup (text "size") = some (.int n)
  sha256 : ∃ s, descriptor.lookup (text "sha256") = some (.str s) ∧ sha256Fullmatch s = true
  mode : ∃ s ∈ fileModes, descriptor.lookup (text "mode") = some (.str s)

structure FileAccepted (path : Text) (value : Json) : Prop where
  safe : SafePath path
  free : path ∉ RESERVED_NAMES
  descriptor : ∃ descriptor, value = .obj descriptor ∧ DescriptorAccepted descriptor

theorem sizeValid_iff {v : Json} : sizeValid v = true ↔ ∃ n : ℕ, v = .int n := by
  cases v with
  | int n =>
    simp only [sizeValid, decide_eq_true_eq, Json.int.injEq]
    constructor
    · intro h
      exact ⟨n.toNat, (Int.toNat_of_nonneg h).symm⟩
    · rintro ⟨m, rfl⟩
      exact Int.natCast_nonneg m
  | _ => simp [sizeValid]

theorem modeValid_iff {v : Json} : modeValid v = .ok true ↔ ∃ s ∈ fileModes, v = .str s := by
  cases v <;> simp [modeValid]

theorem validateFile_ok {lib : Python} {path : Text} {value : Json} {u : Unit} :
    validateFile lib (path, value) = .ok u ↔ FileAccepted path value := by
  unfold validateFile
  simp only [bind_ok, refuse_ok, dictionary_ok, requireExactKeys_ok, item_ok, stringThat_ok,
    safeRelativePath_ok, decide_eq_false_iff_not, Bool.not_eq_false', sizeValid_iff]
  constructor
  · rintro ⟨p, ⟨hsafe, rfl⟩, ⟨⟩, hfree, descriptor, rfl, ⟨⟩, hk, size, hsize, ⟨⟩, ⟨n, rfl⟩, sha,
      hsha, s, ⟨rfl, hs⟩, mode, hmode, known, hknown, rfl⟩
    obtain ⟨m, hm, rfl⟩ := modeValid_iff.mp hknown
    exact ⟨hsafe, hfree, descriptor, rfl, hk, ⟨n, hsize⟩, ⟨s, hsha, hs⟩, ⟨m, hm, hmode⟩⟩
  · rintro ⟨hsafe, hfree, descriptor, rfl, hk, ⟨n, hsize⟩, ⟨s, hsha, hs⟩, ⟨m, hm, hmode⟩⟩
    exact ⟨_, ⟨hsafe, rfl⟩, (), hfree, descriptor, rfl, (), hk, _, hsize, (), ⟨n, rfl⟩, _, hsha, s,
      ⟨rfl, hs⟩, _, hmode, true, modeValid_iff.mpr ⟨m, hm, rfl⟩, rfl⟩

/-- The parts of a manifest that its checks look into. -/
structure Parts where
  root : List (Text × Json)
  artifact : List (Text × Json)
  executor : List (Text × Json)
  files : List (Text × Json)
  entrypoint : Text
  tftpRoot : Option Text

structure Accepted (lib : Python) (m : Parts) : Prop where
  exact : ExactKeys m.root rootFields []
  schema : m.root.lookup (text "schema") = some (.str SCHEMA)
  version : ∃ v, m.root.lookup (text "formatVersion") = some v ∧ v.number? = some FORMAT_VERSION
  artifact : m.root.lookup (text "artifact") = some (.obj m.artifact)
  artifactAccepted : ArtifactAccepted lib m.artifact
  executor : m.root.lookup (text "executor") = some (.obj m.executor)
  executorAccepted : ExecutorAccepted m.executor m.entrypoint m.tftpRoot
  files : m.root.lookup (text "files") = some (.obj m.files)
  nonempty : m.files ≠ []
  filesAccepted : ∀ path value, (path, value) ∈ m.files → FileAccepted path value
  entrypoint : ∃ descriptor, m.files.lookup m.entrypoint = some (.obj descriptor) ∧
    descriptor.lookup (text "mode") = some (.str (text "0755"))
  tftpRoot : ∀ root ∈ m.tftpRoot, ∃ path ∈ keys m.files, root ++ [slash] <+: path

theorem mem_of_lookup {ps : List (Text × Json)} {k : Text} {v : Json} (h : ps.lookup k = some v) :
    (k, v) ∈ ps := by
  obtain ⟨l, m, rfl, -⟩ := List.lookup_eq_some_iff.mp h
  simp

theorem mem_keys_of_lookup {ps : List (Text × Json)} {k : Text} {v : Json}
    (h : ps.lookup k = some v) : k ∈ keys ps :=
  List.mem_map_of_mem (f := Prod.fst) (mem_of_lookup h)

theorem checkEntrypoint_ok {files : List (Text × Json)} {entrypoint : Text} {u : Unit} :
    checkEntrypoint files entrypoint = .ok u ↔
      ∃ descriptor, files.lookup entrypoint = some (.obj descriptor) ∧
        descriptor.lookup (text "mode") = some (.str (text "0755")) := by
  unfold checkEntrypoint
  simp only [bind_ok, refuse_ok, dictionary_ok, item_ok, decide_eq_false_iff_not, not_not, str?_eq]
  constructor
  · rintro ⟨⟨⟩, -, file, hf, descriptor, rfl, mode, hm, rfl⟩
    exact ⟨descriptor, hf, hm⟩
  · rintro ⟨descriptor, hf, hm⟩
    exact ⟨(), mem_keys_of_lookup hf, _, hf, descriptor, rfl, _, hm, rfl⟩

theorem checkTftpRoot_ok {files : List (Text × Json)} {tftpRoot : Option Text} {u : Unit}
    (hne : ∀ root ∈ tftpRoot, root ≠ []) :
    checkTftpRoot files tftpRoot = .ok u ↔
      ∀ root ∈ tftpRoot, ∃ path ∈ keys files, root ++ [slash] <+: path := by
  cases tftpRoot with
  | none => simp [checkTftpRoot]
  | some root =>
    have h0 : root ≠ [] := hne root rfl
    simp [checkTftpRoot, h0]

/-- `validate_manifest` returns exactly on the values it accepts, and returns its argument. -/
theorem validateManifest_ok {lib : Python} {v w : Json} :
    validateManifest lib v = .ok w ↔ v = w ∧ ∃ m : Parts, v = .obj m.root ∧ Accepted lib m := by
  unfold validateManifest
  simp only [bind_ok, refuse_ok, dictionary_ok, requireExactKeys_ok, item_ok, forM_ok, pure_ok,
    validateArtifact_ok, decide_eq_false_iff_not, not_not, str?_eq, checkEntrypoint_ok,
    List.isEmpty_eq_false_iff]
  constructor
  · rintro ⟨root, rfl, ⟨⟩, hk, _, hschema, ⟨⟩, rfl, version, hv, ⟨⟩, hversion, _, ha, ⟨⟩,
      ⟨artifact, rfl, hart⟩, _, he, ⟨entrypoint, tftpRoot⟩, hexec, _, hf, files, rfl, ⟨⟩, hne,
      ⟨⟩, hfiles, ⟨⟩, hentry, ⟨⟩, htftp, rfl⟩
    obtain ⟨executor, rfl, haccepted⟩ := validateExecutor_ok.mp hexec
    have htftp := (checkTftpRoot_ok fun r hr => (haccepted.rootSafe r hr).2.nonempty).mp htftp
    exact ⟨rfl, ⟨root, artifact, executor, files, entrypoint, tftpRoot⟩, rfl, hk, hschema,
      ⟨version, hv, hversion⟩, ha, hart, he, haccepted, hf, hne,
      fun path value hm => validateFile_ok.mp (hfiles (path, value) hm), hentry, htftp⟩
  · rintro ⟨rfl, m, rfl, h⟩
    obtain ⟨version, hv, hversion⟩ := h.version
    have htftp : checkTftpRoot m.files m.tftpRoot = .ok () :=
      (checkTftpRoot_ok fun r hr => (h.executorAccepted.rootSafe r hr).2.nonempty).mpr h.tftpRoot
    exact ⟨m.root, rfl, (), h.exact, _, h.schema, (), rfl, version, hv, (), hversion, _, h.artifact,
      (), ⟨_, rfl, h.artifactAccepted⟩, _, h.executor, (m.entrypoint, m.tftpRoot),
      validateExecutor_ok.mpr ⟨_, rfl, h.executorAccepted⟩, _, h.files, m.files, rfl, (),
      h.nonempty, (), fun p hp => validateFile_ok.mpr (h.filesAccepted p.1 p.2 hp), (),
      h.entrypoint, (), htftp, rfl⟩

end Monutchee.Artifact
