import Monutchee.Artifact.Schema

/-!
# Verifying an archive and taking it apart (mnc-artifact.py:139-146, 365-427)

`verify_archive` checks the members of an archive one by one and against the manifest among
them. A station then extracts the members in their order. The tar reader, the JSON reader and
SHA-256 are the interpreter's library; `getmembers` reads past the data of every member, so a
member it returns has all its bytes.
-/

namespace Monutchee.Artifact
open Monutchee.Lib

abbrev Bytes := List UInt8

inductive TarType where
  | regular | hardlink | symlink | directory | fifo | character | block
  deriving DecidableEq

/-- A `TarInfo` with the bytes `extractfile` reads. Numbers in base 256 may be negative. -/
structure Member where
  name : Text
  mode : ℤ
  uid : ℤ
  gid : ℤ
  type : TarType
  data : Bytes
  deriving DecidableEq

def Member.isfile (m : Member) : Bool := m.type == .regular
def Member.size (m : Member) : ℕ := m.data.length

/-- `open` refuses the file, or `getmembers` meets its end in the middle of a member. -/
inductive TarFault where
  | unreadable | truncated
  deriving DecidableEq

structure Library extends Python where
  sha256 : Bytes → Text
  /-- The value of a text, each object with its members as written; `none` is a fault of the text. -/
  loads : Bytes → Option Json
  readTar : Bytes → Except TarFault (List Member)

/-! ### verify_archive -/

/-- The loop of `json_object_without_duplicates`; `value` is the dictionary so far. -/
def objectLoop (lib : Python) (value : List (Text × Json)) :
    List (Text × Json) → Except Error Json
  | [] => return .obj value
  | (key, item) :: rest => do
    refuse (key ∈ keys value) (.artifactError
      (text "manifest contains a duplicate JSON key: " ++ lib.repr (.str key)))
    objectLoop lib (value ++ [(key, item)]) rest

def jsonObjectWithoutDuplicates (lib : Python) (pairs : List (Text × Json)) : Except Error Json :=
  objectLoop lib [] pairs

/-- The loop over `getmembers`; `members` is the dictionary so far. -/
def collectMembers (lib : Python) (members : List Member) : List Member → Except Error (List Member)
  | [] => return members
  | member :: rest => do
    let _ ← safeRelativePath lib member.name
    refuse (member.name ∈ members.map Member.name)
      (.artifactError (text "archive contains a duplicate path: " ++ member.name))
    refuse (!member.isfile)
      (.artifactError (text "archive entry is not a regular file: " ++ member.name))
    refuse (member.uid ≠ 0 || member.gid ≠ 0)
      (.artifactError (text "archive entry ownership must be 0/0: " ++ member.name))
    collectMembers lib (members ++ [member]) rest

def findMember (members : List Member) (name : Text) : Option Member :=
  members.find? fun member => member.name == name

/-- `mode & 0o777`. -/
def permissions (mode : ℤ) : ℕ := (mode % 0o1000).toNat

/-- `f"{mode:04o}"` for at most twelve bits. -/
def octal (mode : ℕ) : Text :=
  [48 + mode / 0o1000 % 8, 48 + mode / 0o100 % 8, 48 + mode / 0o10 % 8, 48 + mode % 8]

def loadManifest (lib : Library) (data : Bytes) : Except Error Json :=
  match lib.loads data with
  | none => raise (text "archive has an invalid manifest.json")
  | some value => value.rebuild (jsonObjectWithoutDuplicates lib.toPython)

/-- The sorted names of a set, behind a label, if there are any. -/
def detail (label : Text) (names : List Text) : List Text :=
  if names.isEmpty then [] else [label ++ joined (text ",") (sortedTexts names)]

def compareNames (members : List Member) (files : List (Text × Json)) : Except Error Unit :=
  let actual := (members.map Member.name).filter fun name => name ∉ RESERVED_NAMES
  let missing := (keys files).filter fun name => name ∉ actual
  let extra := actual.filter fun name => name ∉ keys files
  refuse (missing ≠ [] || extra ≠ []) (.artifactError
    (text "archive payload differs from manifest: " ++
      joined (text " ") (detail (text "missing=") missing ++ detail (text "extra=") extra)))

def checkFile (lib : Library) (members : List Member) (files : List (Text × Json)) (path : Text) :
    Except Error Unit := do
  let value ← item files path
  let descriptor ← dictionary [] value
  match findMember members path with
  | none => .error .keyError
  | some member => do
    let size ← item descriptor (text "size")
    refuse (size.number? ≠ some (member.size : ℚ))
      (.artifactError (text "archive size differs from manifest: " ++ path))
    let mode ← item descriptor (text "mode")
    refuse (str? mode ≠ some (octal (permissions member.mode)))
      (.artifactError (text "archive mode differs from manifest: " ++ path))
    let sha256 ← item descriptor (text "sha256")
    refuse (str? sha256 ≠ some (lib.sha256 member.data))
      (.artifactError (text "archive SHA-256 differs from manifest: " ++ path))

def checkSignature (members : List Member) : Except Error Unit :=
  match findMember members SIGNATURE_NAME with
  | none => .ok ()
  | some member =>
    refuse (permissions member.mode ≠ 0o644) (.artifactError (text "manifest.sig mode must be 0644"))

def verifyMembers (lib : Library) (archive : List Member) : Except Error Json := do
  let members ← collectMembers lib.toPython [] archive
  match findMember members MANIFEST_NAME with
  | none => raise (text "archive is missing manifest.json")
  | some member => do
    refuse (permissions member.mode ≠ 0o644)
      (.artifactError (text "manifest.json mode must be 0644"))
    let manifest ← loadManifest lib member.data
    let _ ← validateManifest lib.toPython manifest
    checkSignature members
    let root ← dictionary [] manifest
    let value ← item root (text "files")
    let files ← dictionary [] value
    compareNames members files
    (sortedTexts (keys files)).forM (checkFile lib members files)
    return manifest

/-- `archive` is what the path holds, if it is a file. -/
def verifyArchive (lib : Library) (path : Text) (archive : Option Bytes) : Except Error Json :=
  match archive with
  | none => raise (text "artifact archive does not exist: " ++ path)
  | some bytes =>
    match lib.readTar bytes with
    | .error .unreadable => raise (text "artifact is not a readable tar.gz archive: " ++ path)
    | .error .truncated => .error .readError
    | .ok members => verifyMembers lib members

/-! ### What is verified -/

structure MemberAccepted (member : Member) : Prop where
  safe : SafePath member.name
  file : member.isfile = true
  owner : member.uid = 0 ∧ member.gid = 0

theorem collectMembers_ok {lib : Python} {seen l r : List Member} :
    collectMembers lib seen l = .ok r ↔ r = seen ++ l ∧ (∀ m ∈ l, MemberAccepted m) ∧
      (l.map Member.name).Nodup ∧ ∀ m ∈ l, m.name ∉ seen.map Member.name := by
  induction l generalizing seen with
  | nil =>
    simp only [collectMembers, pure_ok, List.append_nil]
    constructor
    · rintro rfl
      simp
    · rintro ⟨rfl, -⟩
      rfl
  | cons member rest ih =>
    simp only [collectMembers, bind_ok, safeRelativePath_ok, refuse_ok, ih,
      decide_eq_false_iff_not, Bool.not_eq_false', Bool.or_eq_false_iff, ne_eq, not_not]
    constructor
    · rintro ⟨_, ⟨hsafe, rfl⟩, ⟨⟩, hnew, ⟨⟩, hfile, ⟨⟩, howner, rfl, hrest, hnodup, hfresh⟩
      have hother : ∀ m ∈ rest, m.name ≠ member.name ∧ m.name ∉ seen.map Member.name := by
        intro m hm
        have := hfresh m hm
        rw [List.map_append, List.mem_append, not_or] at this
        exact ⟨fun he => this.2 (by simp [he]), this.1⟩
      refine ⟨by simp, ?_, ?_, ?_⟩
      · intro m hm
        rcases List.mem_cons.mp hm with rfl | hm
        · exact ⟨hsafe, hfile, howner⟩
        · exact hrest m hm
      · rw [List.map_cons, List.nodup_cons]
        refine ⟨?_, hnodup⟩
        intro hmem
        obtain ⟨m, hm, he⟩ := List.mem_map.mp hmem
        exact (hother m hm).1 he
      · intro m hm
        rcases List.mem_cons.mp hm with rfl | hm
        · exact hnew
        · exact (hother m hm).2
    · rintro ⟨rfl, hall, hnodup, hfresh⟩
      have hm := hall member (List.mem_cons_self ..)
      rw [List.map_cons, List.nodup_cons] at hnodup
      refine ⟨_, ⟨hm.safe, rfl⟩, (), hfresh member (List.mem_cons_self ..), (), hm.file, (), hm.owner,
        by simp, fun m h => hall m (List.mem_cons_of_mem _ h), hnodup.2, ?_⟩
      intro m h hmem
      rw [List.map_append, List.mem_append] at hmem
      rcases hmem with hmem | hmem
      · exact hfresh m (List.mem_cons_of_mem _ h) hmem
      · simp only [List.map_cons, List.map_nil, List.mem_singleton] at hmem
        exact hnodup.1 (List.mem_map.mpr ⟨m, h, hmem⟩)

/-- The payload file at `path` is what its descriptor says, as far as `verify_archive` looks. -/
structure FileVerified (lib : Library) (member : Member) (descriptor : List (Text × Json)) : Prop where
  size : descriptor.lookup (text "size") = some (.int member.size)
  mode : descriptor.lookup (text "mode") = some (.str (octal (permissions member.mode)))
  sha256 : descriptor.lookup (text "sha256") = some (.str (lib.sha256 member.data))

theorem findMember_some {members : List Member} {name : Text} {member : Member}
    (h : findMember members name = some member) : member ∈ members ∧ member.name = name :=
  ⟨List.mem_of_find?_eq_some h, by simpa using List.find?_some h⟩

theorem findMember_of_mem {members : List Member} {member : Member}
    (hnodup : (members.map Member.name).Nodup) (h : member ∈ members) :
    findMember members member.name = some member := by
  have hsome : (findMember members member.name).isSome = true := by
    rw [findMember, List.find?_isSome]
    exact ⟨member, h, by simp⟩
  obtain ⟨found, hfound⟩ := Option.isSome_iff_exists.mp hsome
  obtain ⟨hmem, hname⟩ := findMember_some hfound
  rw [hfound, List.inj_on_of_nodup_map hnodup hmem h hname]

theorem checkFile_ok {lib : Library} {members : List Member} {files : List (Text × Json)}
    {path : Text} {u : Unit} (hfiles : ∀ value, files.lookup path = some value → FileAccepted path value) :
    checkFile lib members files path = .ok u ↔ ∃ descriptor member,
      files.lookup path = some (.obj descriptor) ∧ findMember members path = some member ∧
        FileVerified lib member descriptor := by
  unfold checkFile
  simp only [bind_ok, item_ok, dictionary_ok]
  constructor
  · rintro ⟨value, hvalue, descriptor, rfl, h⟩
    split at h
    · cases h
    · rename_i member hmember
      simp only [bind_ok, item_ok, refuse_ok, decide_eq_false_iff_not, ne_eq, not_not, str?_eq] at h
      obtain ⟨size, hsize, ⟨⟩, hn, mode, hmode, ⟨⟩, rfl, sha, hsha, rfl⟩ := h
      obtain ⟨d, hd, haccepted⟩ := (hfiles _ hvalue).descriptor
      cases hd
      obtain ⟨n, hint⟩ := haccepted.size
      rw [hint] at hsize
      cases hsize
      have : n = member.size := by
        have := Option.some.inj hn
        exact_mod_cast this
      rw [this] at hint
      exact ⟨descriptor, member, hvalue, hmember, hint, hmode, hsha⟩
  · rintro ⟨descriptor, member, hvalue, hmember, h⟩
    refine ⟨_, hvalue, descriptor, rfl, ?_⟩
    rw [hmember]
    simp only [bind_ok, item_ok, refuse_ok, decide_eq_false_iff_not, ne_eq, not_not, str?_eq]
    exact ⟨_, h.size, (), rfl, _, h.mode, (), rfl, _,
      h.sha256, rfl⟩

theorem checkSignature_ok {members : List Member} {u : Unit} :
    checkSignature members = .ok u ↔
      ∀ m, findMember members SIGNATURE_NAME = some m → permissions m.mode = 0o644 := by
  unfold checkSignature
  cases findMember members SIGNATURE_NAME <;> simp

theorem compareNames_ok {members : List Member} {files : List (Text × Json)} {u : Unit} :
    compareNames members files = .ok u ↔
      ∀ name, name ∈ keys files ↔ name ∈ members.map Member.name ∧ name ∉ RESERVED_NAMES := by
  unfold compareNames
  simp only [refuse_ok, Bool.or_eq_false_iff, decide_eq_false_iff_not, ne_eq, not_not,
    List.filter_eq_nil_iff, List.mem_filter, decide_eq_true_eq]
  constructor
  · rintro ⟨hmissing, hextra⟩ name
    exact ⟨hmissing name, hextra name⟩
  · intro h
    exact ⟨fun name hn => (h name).mp hn, fun name hn => (h name).mpr hn⟩

theorem mem_sortedTexts {l : List Text} {x : Text} : x ∈ sortedTexts l ↔ x ∈ l := by
  unfold sortedTexts
  rw [List.mem_insertionSort, List.mem_dedup]

theorem lookup_of_mem_keys {ps : List (Text × Json)} {k : Text} (h : k ∈ keys ps) :
    ∃ v, ps.lookup k = some v := by
  obtain ⟨p, hp, rfl⟩ := List.mem_map.mp h
  rw [← Option.isSome_iff_exists, List.lookup_isSome_iff]
  exact ⟨p, hp, by simp⟩

/-- Everything `verify_archive` has established when it returns. -/
structure Verified (lib : Library) (archive : List Member) (manifest : Json) (own : Member)
    (m : Parts) : Prop where
  members : ∀ x ∈ archive, MemberAccepted x
  nodup : (archive.map Member.name).Nodup
  found : findMember archive MANIFEST_NAME = some own
  mode : permissions own.mode = 0o644
  load : loadManifest lib own.data = .ok manifest
  root : manifest = .obj m.root
  accepted : Accepted lib.toPython m
  signature : ∀ x, findMember archive SIGNATURE_NAME = some x → permissions x.mode = 0o644
  names : ∀ name, name ∈ keys m.files ↔ name ∈ archive.map Member.name ∧ name ∉ RESERVED_NAMES
  files : ∀ path ∈ keys m.files, ∃ descriptor member,
    m.files.lookup path = some (.obj descriptor) ∧ findMember archive path = some member ∧
      FileVerified lib member descriptor

theorem verifyMembers_ok {lib : Library} {archive : List Member} {manifest : Json} :
    verifyMembers lib archive = .ok manifest ↔ ∃ own m, Verified lib archive manifest own m := by
  unfold verifyMembers
  simp only [bind_ok, collectMembers_ok, List.nil_append]
  constructor
  · rintro ⟨_, ⟨rfl, hmembers, hnodup, -⟩, h⟩
    split at h
    · cases h
    · rename_i own hfound
      simp only [bind_ok, refuse_ok, dictionary_ok, item_ok, forM_ok, pure_ok, validateManifest_ok,
        checkSignature_ok, compareNames_ok, decide_eq_false_iff_not, ne_eq, not_not] at h
      obtain ⟨⟨⟩, hmode, value, hload, _, ⟨rfl, m, rfl, haccepted⟩, ⟨⟩, hsignature, _, hroot, _, hfiles, _,
        rfl, ⟨⟩, hnames, ⟨⟩, hcheck, rfl⟩ := h
      cases hroot
      rw [haccepted.files] at hfiles
      cases hfiles
      refine ⟨own, m, hmembers, hnodup, hfound, hmode, hload, rfl, haccepted, hsignature, hnames, ?_⟩
      intro path hp
      exact (checkFile_ok fun value hv => haccepted.filesAccepted path value (mem_of_lookup hv)).mp
        (hcheck path (mem_sortedTexts.mpr hp))
  · rintro ⟨own, m, h⟩
    obtain rfl := h.root
    refine ⟨archive, ⟨rfl, h.members, h.nodup, fun _ _ => List.not_mem_nil⟩, ?_⟩
    rw [h.found]
    simp only [bind_ok, refuse_ok, dictionary_ok, item_ok, forM_ok, pure_ok, validateManifest_ok,
      checkSignature_ok, compareNames_ok, decide_eq_false_iff_not, ne_eq, not_not]
    refine ⟨(), h.mode, _, h.load, _, ⟨rfl, m, rfl, h.accepted⟩, (), h.signature, _, rfl, _,
      h.accepted.files, m.files, rfl, (), h.names, (), ?_, rfl⟩
    intro path hp
    exact (checkFile_ok fun value hv => h.accepted.filesAccepted path value (mem_of_lookup hv)).mpr
      (h.files path (mem_sortedTexts.mp hp))

end Monutchee.Artifact
