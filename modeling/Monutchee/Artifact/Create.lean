import Monutchee.Artifact.Payload
import Monutchee.Artifact.Extract

/-!
# Creating an archive (mnc-artifact.py:154-200, 289-362)

`create_archive` collects the payload, builds the manifest, writes both into a tar archive and
verifies the result before it takes the place of the output. The writers of JSON, tar and gzip
are the interpreter's; of them it is only used that reading undoes writing, for JSON up to the
order of the keys, which are written sorted.
-/

namespace Monutchee.Artifact
open Monutchee.Lib

/-! ### The manifest of a payload -/

structure Metadata where
  name : Text
  vendor : Text
  operation : Text
  product : Text
  machine : Text
  version : Text
  buildId : Text
  createdUtc : Text
  executorType : Text
  entrypoint : Text
  tftpRoot : Option Text

def executorMembers (info : Metadata) : List (Text × Json) :=
  [(text "type", .str info.executorType), (text "entrypoint", .str info.entrypoint)] ++
    -- an empty root counts as none
    (match info.tftpRoot with
      | some root => if root.isEmpty then [] else [(text "tftpRoot", .str root)]
      | none => [])

def artifactMembers (info : Metadata) : List (Text × Json) :=
  [(text "name", .str info.name), (text "vendor", .str info.vendor),
    (text "operation", .str info.operation), (text "product", .str info.product),
    (text "machine", .str info.machine), (text "version", .str info.version),
    (text "buildId", .str info.buildId), (text "createdUtc", .str info.createdUtc)]

def descriptorMembers (file : PayloadFile) : List (Text × Json) :=
  [(text "size", .int file.size), (text "sha256", .str file.sha256),
    (text "mode", .str (octal file.mode))]

/-- The paths of a tree are distinct, so the dictionary has one member for each file. -/
def fileMembers (files : List PayloadFile) : List (Text × Json) :=
  files.map fun file => (file.path, .obj (descriptorMembers file))

def manifestMembers (info : Metadata) (files : List PayloadFile) : List (Text × Json) :=
  [(text "schema", .str SCHEMA), (text "formatVersion", .int 2),
    (text "artifact", .obj (artifactMembers info)), (text "executor", .obj (executorMembers info)),
    (text "files", .obj (fileMembers files))]

def buildManifest (lib : Python) (info : Metadata) (files : List PayloadFile) : Except Error Json :=
  validateManifest lib (.obj (manifestMembers info files))

/-! ### create_archive -/

structure TarInfo where
  name : Text
  size : ℕ
  mode : ℕ
  mtime : ℤ
  uid : ℕ
  gid : ℕ
  uname : Text
  gname : Text
  deriving DecidableEq

def tarInfo (name : Text) (size mode : ℕ) (epoch : ℤ) : TarInfo where
  name := name
  size := size
  mode := mode
  mtime := epoch
  uid := 0
  gid := 0
  uname := []
  gname := []

structure Tools extends Library where
  /-- `(json.dumps(value, indent=2, sort_keys=True) + "\n").encode("utf-8")` -/
  dumps : Json → Bytes
  /-- A USTAR archive of the given members; an error where a field does not fit. -/
  writeTar : List (TarInfo × Bytes) → Except Error Bytes
  /-- `gzip` without a file name, at level 9, with the given time stamp. -/
  compress : ℤ → Bytes → Except Error Bytes

structure OutputFile where
  data : Bytes
  mode : ℕ
  deriving DecidableEq

def archiveEntries (tools : Tools) (epoch : ℤ) (manifest : Json) (files : List PayloadFile) :
    List (TarInfo × Bytes) :=
  (tarInfo MANIFEST_NAME (tools.dumps manifest).length 0o644 epoch, tools.dumps manifest) ::
    files.map fun file => (tarInfo file.path file.size file.mode epoch, file.source)

def pack (tools : Tools) (epoch : ℤ) (entries : List (TarInfo × Bytes)) : Except Error Bytes := do
  let raw ← tools.writeTar entries
  tools.compress epoch raw

/-- The archive that is written to the temporary file and passes its own verification there. -/
def temporaryArchive (tools : Tools) (directory : Text) (tree : Node) (epoch : ℤ) (info : Metadata) :
    Except Error (Json × Bytes) := do
  refuse (epoch < 0) (.artifactError (text "archive epoch must not be negative"))
  let files ← collectPayload tools.toLibrary directory tree
  let manifest ← buildManifest tools.toPython info files
  let packed ← pack tools epoch (archiveEntries tools epoch manifest files)
  let _ ← verifyArchive tools.toLibrary [] (some packed)
  return (manifest, packed)

/-- The result with what the output path holds afterwards: the archive, or what it held before. -/
def createArchive (tools : Tools) (directory : Text) (tree : Node) (output : Option OutputFile)
    (epoch : ℤ) (info : Metadata) : Except Error Json × Option OutputFile :=
  match temporaryArchive tools directory tree epoch info with
  | .ok (manifest, packed) => (.ok manifest, some ⟨packed, 0o644⟩)
  | .error error => (.error error, output)

/-! ### What fits into a USTAR header -/

/-- Bytes of a code point in UTF-8; an escaped byte of a file name is one byte, other surrogates
cannot be written. -/
def encodedLength (c : ℕ) : Option ℕ :=
  if c < 0x80 then some 1
  else if c < 0x800 then some 2
  else if 0xDC80 ≤ c ∧ c ≤ 0xDCFF then some 1
  else if 0xD800 ≤ c ∧ c ≤ 0xDFFF then none
  else if c < 0x10000 then some 3
  else if c < 0x110000 then some 4
  else none

def fitsIn (limit : ℕ) (t : Text) : Prop :=
  ∃ lengths, t.mapM encodedLength = some lengths ∧ lengths.sum ≤ limit

/-- A name of at most 100 bytes, or one that a slash divides into at most 155 and 100 bytes; a size
of eleven octal digits. -/
def FitsUstar (info : TarInfo) : Prop :=
  (fitsIn 100 info.name ∨ ∃ i, 0 < i ∧ i < (components info.name).length ∧
    fitsIn 155 (relative ((components info.name).take i)) ∧
    fitsIn 100 (relative ((components info.name).drop i))) ∧ info.size < 8 ^ 11

/-- The member a reader makes of an entry. -/
def entryMember (entry : TarInfo × Bytes) : Member where
  name := entry.1.name
  mode := entry.1.mode
  uid := entry.1.uid
  gid := entry.1.gid
  type := .regular
  data := entry.2

/-- Reading undoes writing, for one manifest and one list of entries. -/
structure Undoes (tools : Tools) (epoch : ℤ) (manifest : Json) (entries : List (TarInfo × Bytes)) :
    Prop where
  json : ∃ v, tools.loads (tools.dumps manifest) = some v ∧ v.Rearranged manifest ∧ v.Unique
  tar : (∀ entry ∈ entries, FitsUstar entry.1) → 0 ≤ epoch → epoch < 2 ^ 32 →
    ∃ packed, pack tools epoch entries = .ok packed ∧
      tools.readTar packed = .ok (entries.map entryMember)

/-! ### Acceptance does not depend on the order of the keys -/

theorem mem_keys_iff {ps : List (Text × Json)} {k : Text} : k ∈ keys ps ↔ (ps.lookup k).isSome = true := by
  rw [Option.isSome_iff_exists]
  exact ⟨lookup_of_mem_keys, fun ⟨_, hv⟩ => mem_keys_of_lookup hv⟩

theorem mem_keys_rearranged {ps qs : List (Text × Json)} {k : Text}
    (h : Json.Rearranged (.obj ps) (.obj qs)) : k ∈ keys ps ↔ k ∈ keys qs := by
  rw [mem_keys_iff, mem_keys_iff, h.lookup_isSome]

theorem ExactKeys.rearranged {ps qs : List (Text × Json)} {required optional : List Text}
    (h : ExactKeys qs required optional) (hr : Json.Rearranged (.obj ps) (.obj qs)) :
    ExactKeys ps required optional :=
  ⟨fun k hk => (mem_keys_rearranged hr).mpr (h.present k hk),
    fun k hk => h.known k ((mem_keys_rearranged hr).mp hk)⟩

theorem ArtifactAccepted.rearranged {lib : Python} {ps qs : List (Text × Json)}
    (h : ArtifactAccepted lib qs) (hr : Json.Rearranged (.obj ps) (.obj qs)) :
    ArtifactAccepted lib ps where
  exact := h.exact.rearranged hr
  identifiers field hf := by
    obtain ⟨s, hs, hi⟩ := h.identifiers field hf
    exact ⟨s, hr.lookup_str hs, hi⟩
  version := by
    obtain ⟨s, hs, hl⟩ := h.version
    exact ⟨s, hr.lookup_str hs, hl⟩
  created := by
    obtain ⟨s, hs, hu⟩ := h.created
    exact ⟨s, hr.lookup_str hs, hu⟩

theorem ExecutorAccepted.rearranged {ps qs : List (Text × Json)} {entrypoint : Text}
    {tftpRoot : Option Text} (h : ExecutorAccepted qs entrypoint tftpRoot)
    (hr : Json.Rearranged (.obj ps) (.obj qs)) : ExecutorAccepted ps entrypoint tftpRoot where
  exact := h.exact.rearranged hr
  kind := by
    obtain ⟨s, hs, hi⟩ := h.kind
    exact ⟨s, hr.lookup_str hs, hi⟩
  entry := hr.lookup_str h.entry
  entrySafe := h.entrySafe
  root := by
    cases tftpRoot with
    | none => exact hr.lookup_eq_none h.root
    | some root => exact hr.lookup_str h.root
  rootSafe := h.rootSafe

theorem DescriptorAccepted.rearranged {ps qs : List (Text × Json)} (h : DescriptorAccepted qs)
    (hr : Json.Rearranged (.obj ps) (.obj qs)) : DescriptorAccepted ps where
  exact := h.exact.rearranged hr
  size := by
    obtain ⟨n, hn⟩ := h.size
    exact ⟨n, hr.lookup_int hn⟩
  sha256 := by
    obtain ⟨s, hs, hm⟩ := h.sha256
    exact ⟨s, hr.lookup_str hs, hm⟩
  mode := by
    obtain ⟨s, hm, hs⟩ := h.mode
    exact ⟨s, hm, hr.lookup_str hs⟩

theorem FileAccepted.rearranged {path : Text} {v w : Json} (h : FileAccepted path w)
    (hr : v.Rearranged w) : FileAccepted path v where
  safe := h.safe
  free := h.free
  descriptor := by
    obtain ⟨qs, rfl, hd⟩ := h.descriptor
    obtain ⟨ps, rfl⟩ := hr.obj_eq
    exact ⟨ps, rfl, hd.rearranged hr⟩

/-- A manifest that was written and read again is accepted as it was before. -/
theorem Accepted.rearranged {lib : Python} {m : Parts} {v : Json} (h : Accepted lib m)
    (hr : v.Rearranged (.obj m.root)) (hu : v.Unique) :
    ∃ n : Parts, v = .obj n.root ∧ Accepted lib n ∧ Json.Rearranged (.obj n.files) (.obj m.files) := by
  obtain ⟨root, rfl⟩ := hr.obj_eq
  obtain ⟨version, hversion, hnumber⟩ := h.version
  obtain ⟨version', hversion', hrv⟩ := hr.lookup_left hversion
  obtain ⟨artifact, hartifact, hra⟩ := hr.lookup_obj h.artifact
  obtain ⟨executor, hexecutor, hre⟩ := hr.lookup_obj h.executor
  obtain ⟨files, hfiles, hrf⟩ := hr.lookup_obj h.files
  obtain ⟨descriptor, hdescriptor, hmode⟩ := h.entrypoint
  obtain ⟨descriptor', hdescriptor', hrd⟩ := hrf.lookup_obj hdescriptor
  refine ⟨⟨root, artifact, executor, files, m.entrypoint, m.tftpRoot⟩, rfl, ?_, hrf⟩
  refine
    { exact := h.exact.rearranged hr
      schema := hr.lookup_str h.schema
      version := ⟨version', hversion', by rw [hrv.number?, hnumber]⟩
      artifact := hartifact
      artifactAccepted := h.artifactAccepted.rearranged hra
      executor := hexecutor
      executorAccepted := h.executorAccepted.rearranged hre
      files := hfiles
      nonempty := ?_
      filesAccepted := ?_
      entrypoint := ⟨descriptor', hdescriptor', hrd.lookup_str hmode⟩
      tftpRoot := ?_ }
  · rintro rfl
    cases hdescriptor'
  · intro path value hm
    have hvalue : files.lookup path = some value :=
      Json.lookup_of_mem (hu.of_lookup hfiles).nodup hm
    obtain ⟨w, hw, hrw⟩ := hrf.lookup_right hvalue
    exact (h.filesAccepted path w (mem_of_lookup hw)).rearranged hrw
  · intro tftp ht
    obtain ⟨path, hp, hpre⟩ := h.tftpRoot tftp ht
    exact ⟨path, (mem_keys_rearranged hrf).mpr hp, hpre⟩

/-! ### The written archive is verified -/

theorem objectLoop_nodup {lib : Python} {value pairs : List (Text × Json)}
    (h : ((value ++ pairs).map Prod.fst).Nodup) :
    objectLoop lib value pairs = .ok (.obj (value ++ pairs)) := by
  induction pairs generalizing value with
  | nil =>
    rw [List.append_nil]
    rfl
  | cons p rest ih =>
    obtain ⟨key, item⟩ := p
    have hsplit : value ++ (key, item) :: rest = value ++ [(key, item)] ++ rest := by simp
    have hnew : key ∉ keys value := by
      rw [List.map_append, List.map_cons, List.nodup_append] at h
      intro hk
      exact h.2.2 key hk key (List.mem_cons_self ..) rfl
    rw [objectLoop, bind_ok]
    refine ⟨(), by simpa using hnew, ?_⟩
    rw [hsplit]
    exact ih (by rwa [← hsplit])

theorem loadManifest_unique {lib : Library} {data : Bytes} {v : Json}
    (h : lib.loads data = some v) (hu : v.Unique) : loadManifest lib data = .ok v := by
  unfold loadManifest
  rw [h]
  exact Json.rebuild_unique (fun ps hps => objectLoop_nodup (by rwa [List.nil_append])) hu

theorem safePath_manifest : SafePath MANIFEST_NAME where
  nonempty := by decide
  noBackslash := by decide
  noColon := by decide
  printable := by decide
  parts := by decide

section Written

variable {tools : Tools} {tree : PayloadTree} {epoch : ℤ} {info : Metadata} {manifest : Json}

/-- The members of the archive, as they are read back. -/
def writtenMembers (tools : Tools) (tree : PayloadTree) (epoch : ℤ) (manifest : Json) : List Member :=
  (archiveEntries tools epoch manifest (tree.listing.map (payloadOf tools.toLibrary))).map entryMember

def manifestMember (tools : Tools) (manifest : Json) : Member :=
  ⟨MANIFEST_NAME, 0o644, 0, 0, .regular, tools.dumps manifest⟩

def payloadMember (x : Text × Bytes × Bool) : Member :=
  ⟨x.1, if x.2.2 then 0o755 else 0o644, 0, 0, .regular, x.2.1⟩

theorem payloadMember_triple (leaf : List Text × Stat × Bytes) : payloadMember (triple leaf) =
    ⟨relative leaf.1, normalizedMode leaf.2.1.mode, 0, 0, .regular, leaf.2.2⟩ := by
  unfold payloadMember triple normalizedMode
  by_cases h : leaf.2.1.mode &&& 0o111 = 0 <;> simp [h]

theorem writtenMembers_eq : writtenMembers tools tree epoch manifest =
    manifestMember tools manifest :: tree.listing.map payloadMember := by
  have hfile : ∀ x, entryMember (tarInfo (payloadOf tools.toLibrary x).path
      (payloadOf tools.toLibrary x).size (payloadOf tools.toLibrary x).mode epoch,
      (payloadOf tools.toLibrary x).source) = payloadMember x := by
    intro x
    obtain ⟨path, content, executable⟩ := x
    cases executable <;> rfl
  unfold writtenMembers archiveEntries
  rw [List.map_cons, List.map_map, List.map_map]
  refine congrArg₂ List.cons rfl ?_
  exact List.map_congr_left fun x _ => hfile x

theorem buildManifest_ok {lib : Python} {files : List PayloadFile} :
    buildManifest lib info files = .ok manifest ↔
      manifest = .obj (manifestMembers info files) ∧
        ∃ m : Parts, m.root = manifestMembers info files ∧ m.files = fileMembers files ∧
          Accepted lib m := by
  unfold buildManifest
  rw [validateManifest_ok]
  constructor
  · rintro ⟨rfl, m, hroot, hm⟩
    have hroot : manifestMembers info files = m.root := Json.obj.inj hroot
    have hfiles := hm.files
    rw [← hroot] at hfiles
    have hlookup : (manifestMembers info files).lookup (text "files") =
        some (.obj (fileMembers files)) := rfl
    rw [hlookup] at hfiles
    exact ⟨rfl, m, hroot.symm, (Json.obj.inj (Option.some.inj hfiles)).symm, hm⟩
  · rintro ⟨rfl, m, hroot, -, hm⟩
    exact ⟨rfl, m, by rw [hroot], hm⟩

theorem keys_fileMembers {lib : Library} :
    keys (fileMembers (tree.listing.map (payloadOf lib))) = tree.listing.map Prod.fst := by
  unfold keys fileMembers
  rw [List.map_map, List.map_map]
  rfl

theorem lookup_fileMembers {lib : Library} {x : Text × Bytes × Bool} (h : x ∈ tree.listing) :
    (fileMembers (tree.listing.map (payloadOf lib))).lookup x.1 =
      some (.obj (descriptorMembers (payloadOf lib x))) := by
  refine Json.lookup_of_mem ?_ ?_
  · show (keys (fileMembers (tree.listing.map (payloadOf lib)))).Nodup
    rw [keys_fileMembers]
    exact tree.listing_paths_nodup
  · unfold fileMembers
    rw [List.map_map]
    exact List.mem_map.mpr ⟨x, h, rfl⟩

/-- What was written passes `verify_archive`, which returns the manifest as it reads it. -/
theorem verify_written {v : Json}
    (hall : ∀ x ∈ tree.listing, SafePath x.1 ∧ x.1 ∉ RESERVED_NAMES)
    (hbuild : buildManifest tools.toPython info (tree.listing.map (payloadOf tools.toLibrary)) =
      .ok manifest)
    (hload : tools.loads (tools.dumps manifest) = some v) (hr : v.Rearranged manifest)
    (hu : v.Unique) :
    verifyMembers tools.toLibrary (manifestMember tools manifest :: tree.listing.map payloadMember) =
      .ok v := by
  obtain ⟨hmanifest, m, hroot, hfiles, hm⟩ := buildManifest_ok.mp hbuild
  rw [hmanifest, ← hroot] at hr
  obtain ⟨n, rfl, hn, hrf⟩ := hm.rearranged hr hu
  have hnames : ∀ name, name ∈ keys n.files ↔ name ∈ tree.listing.map Prod.fst := by
    intro name
    rw [mem_keys_rearranged hrf, hfiles, keys_fileMembers]
  have hmap : (tree.listing.map payloadMember).map Member.name = tree.listing.map Prod.fst := by
    rw [List.map_map]
    rfl
  have hfree : ∀ name ∈ tree.listing.map Prod.fst, name ∉ RESERVED_NAMES := by
    intro name hn
    obtain ⟨x, hx, rfl⟩ := List.mem_map.mp hn
    exact (hall x hx).2
  have hnodup : ((manifestMember tools manifest ::
      tree.listing.map payloadMember).map Member.name).Nodup := by
    rw [List.map_cons, List.nodup_cons, hmap]
    exact ⟨fun h => hfree _ h (List.mem_cons_self ..), tree.listing_paths_nodup⟩
  refine verifyMembers_ok.mpr ⟨manifestMember tools manifest, n,
    { members := ?_
      nodup := hnodup
      found := findMember_of_mem hnodup (List.mem_cons_self ..)
      mode := rfl
      load := loadManifest_unique hload hu
      root := rfl
      accepted := hn
      signature := ?_
      names := ?_
      files := ?_ }⟩
  · intro member hmem
    rcases List.mem_cons.mp hmem with rfl | hmem
    · exact ⟨safePath_manifest, rfl, rfl, rfl⟩
    · obtain ⟨x, hx, rfl⟩ := List.mem_map.mp hmem
      exact ⟨(hall x hx).1, rfl, rfl, rfl⟩
  · intro member hfound
    obtain ⟨hmem, hname⟩ := findMember_some hfound
    rcases List.mem_cons.mp hmem with rfl | hmem
    · rfl
    · have hin : member.name ∈ tree.listing.map Prod.fst := by
        rw [← hmap]
        exact List.mem_map_of_mem hmem
      rw [hname] at hin
      exact absurd (List.mem_cons_of_mem _ (List.mem_cons_self ..)) (hfree _ hin)
  · intro name
    rw [hnames, List.map_cons, hmap, List.mem_cons]
    constructor
    · intro h
      exact ⟨.inr h, hfree name h⟩
    · rintro ⟨rfl | h, hr⟩
      · exact absurd (List.mem_cons_self ..) hr
      · exact h
  · intro path hp
    obtain ⟨x, hx, rfl⟩ := List.mem_map.mp ((hnames path).mp hp)
    have hlookup : m.files.lookup x.1 =
        some (.obj (descriptorMembers (payloadOf tools.toLibrary x))) := by
      rw [hfiles]
      exact lookup_fileMembers hx
    obtain ⟨descriptor, hd, hrd⟩ := hrf.lookup_obj hlookup
    have hmem : payloadMember x ∈ manifestMember tools manifest :: tree.listing.map payloadMember :=
      List.mem_cons_of_mem _ (List.mem_map_of_mem hx)
    refine ⟨descriptor, payloadMember x, hd, findMember_of_mem hnodup hmem,
      hrd.lookup_int rfl, ?_, hrd.lookup_str rfl⟩
    have hmode : permissions (payloadMember x).mode = (payloadOf tools.toLibrary x).mode := by
      unfold payloadMember payloadOf
      cases x.2.2 <;> rfl
    rw [hmode]
    exact hrd.lookup_str rfl

/-- A tree with the same files goes the same way. -/
theorem temporaryArchive_same {directory directory' : Text} {tree' : PayloadTree}
    {files : List PayloadFile} (hcollect : collectPayload tools.toLibrary directory tree.node = .ok files)
    (h : tree'.triples = tree.triples) :
    temporaryArchive tools directory' tree'.node epoch info =
      temporaryArchive tools directory tree.node epoch info := by
  have hcollect' : collectPayload tools.toLibrary directory' tree'.node = .ok files := by
    rw [collectPayload_ok] at hcollect ⊢
    rwa [PayloadTree.listing_eq h]
  unfold temporaryArchive
  rw [hcollect, hcollect']

end Written

/-- `create_archive` and `verify_archive` agree, and the archive depends on the files alone. -/
theorem create_and_verify_agree (tools : Tools) (directory path : Text) (tree : PayloadTree)
    (output : Option OutputFile) (epoch : ℤ) (info : Metadata) (files : List PayloadFile)
    (manifest : Json)
    (hcollect : collectPayload tools.toLibrary directory tree.node = .ok files)
    (hbuild : buildManifest tools.toPython info files = .ok manifest)
    (hfits : ∀ entry ∈ archiveEntries tools epoch manifest files, FitsUstar entry.1)
    (h0 : 0 ≤ epoch) (h32 : epoch < 2 ^ 32)
    (hundo : Undoes tools epoch manifest (archiveEntries tools epoch manifest files)) :
    ∃ packed,
      createArchive tools directory tree.node output epoch info = (.ok manifest, some ⟨packed, 0o644⟩) ∧
      (∃ read, verifyArchive tools.toLibrary path (some packed) = .ok read ∧
        read.Rearranged manifest) ∧
      (∃ payload, tools.readTar packed = .ok
          (⟨MANIFEST_NAME, 0o644, 0, 0, .regular, tools.dumps manifest⟩ :: payload) ∧
        (payload.map Member.name).Nodup ∧
        ∀ member, member ∈ payload ↔ ∃ leaf ∈ tree.node.leaves [],
          member = ⟨relative leaf.1, normalizedMode leaf.2.1.mode, 0, 0, .regular, leaf.2.2⟩) ∧
      ∀ (tree' : PayloadTree) (directory' : Text) (output' : Option OutputFile),
        tree'.triples = tree.triples →
          createArchive tools directory' tree'.node output' epoch info =
            (.ok manifest, some ⟨packed, 0o644⟩) := by
  obtain ⟨rfl, -, hall⟩ := (collectPayload_ok tree).mp hcollect
  obtain ⟨v, hload, hr, hu⟩ := hundo.json
  obtain ⟨packed, hpack, hread⟩ := hundo.tar hfits h0 h32
  have hmembers : tools.readTar packed = .ok
      (manifestMember tools manifest :: tree.listing.map payloadMember) := by
    rw [hread]
    exact congrArg Except.ok writtenMembers_eq
  have hverify : ∀ path, verifyArchive tools.toLibrary path (some packed) = .ok v := by
    intro path
    simp only [verifyArchive, hmembers]
    exact verify_written hall hbuild hload hr hu
  have hnegative : decide (epoch < 0) = false := by
    rw [decide_eq_false_iff_not]
    omega
  have htemporary : temporaryArchive tools directory tree.node epoch info = .ok (manifest, packed) := by
    unfold temporaryArchive
    simp only [bind_ok, refuse_ok, pure_ok]
    exact ⟨(), hnegative, _, hcollect, _, hbuild, _, hpack, _, hverify [], rfl⟩
  refine ⟨packed, ?_, ⟨v, hverify path, hr⟩, ⟨_, hmembers, ?_, ?_⟩, ?_⟩
  · simp only [createArchive, htemporary]
  · rw [List.map_map]
    exact tree.listing_paths_nodup
  · intro member
    unfold PayloadTree.listing
    rw [List.map_map, List.mem_map]
    constructor
    · rintro ⟨leaf, hl, rfl⟩
      exact ⟨leaf, tree.mem_sortedLeaves.mp hl, payloadMember_triple leaf⟩
    · rintro ⟨leaf, hl, rfl⟩
      exact ⟨leaf, tree.mem_sortedLeaves.mpr hl, payloadMember_triple leaf⟩
  · intro tree' directory' output' h
    simp only [createArchive, temporaryArchive_same hcollect h, htemporary]

/-! ### The archive of one executable script -/

namespace Sample

def info : Metadata where
  name := text "example-jtag-image"
  vendor := text "xilinx"
  operation := text "jtag-boot"
  product := text "example"
  machine := text "example"
  version := text "2026.1"
  buildId := text "20240101000000"
  createdUtc := created
  executorType := text "xilinx-xsdb"
  entrypoint := text "bin/run"
  tftpRoot := none

def epoch : ℤ := 1704067200

def stat (mode : ℕ) : Stat := ⟨mode, 1000, 1000, 1704067201⟩

def tree : PayloadTree where
  stat := stat 0o775
  entries := [(text "bin", .directory (stat 0o775) [(text "run", .file (stat 0o775) script)])]
  regular := by
    refine .directory _ (by decide) (by decide) ?_
    intro node hn
    rw [List.map_cons, List.map_nil, List.mem_singleton] at hn
    rw [hn]
    refine .directory _ (by decide) (by decide) ?_
    intro node hn
    rw [List.map_cons, List.map_nil, List.mem_singleton] at hn
    rw [hn]
    exact .file _ _

/-- The tar file of entries without special names and owners. -/
def writeTar (entries : List (TarInfo × Bytes)) : Bytes :=
  Tar.archive (entries.map fun entry =>
    (⟨entry.1.name, entry.1.mode, entry.1.size, entry.1.mtime.toNat, text "0", []⟩, entry.2))

/-- The library on the sample: one manifest, one tar archive, one compressed archive. -/
def tools : Tools where
  toLibrary := library 0o755
  dumps _ := manifestData
  writeTar entries := .ok (writeTar entries)
  compress _ _ := .ok packed

def files : List PayloadFile := [⟨text "bin/run", script, 10, digest, 0o755⟩]

theorem manifest_read : readManifest.Rearranged manifest := by
  refine .obj_of_mem ?_ (by decide)
  simp only [List.forall_mem_cons]
  refine ⟨⟨_, rfl, .obj_of_mem ?_ (by decide)⟩, ⟨_, rfl, .obj_of_mem ?_ (by decide)⟩,
    ⟨_, rfl, .obj_of_mem ?_ (by decide)⟩, ⟨_, rfl, .int _⟩, ⟨_, rfl, .str _⟩, by simp⟩
  · simp only [List.forall_mem_cons]
    exact ⟨⟨_, rfl, .str _⟩, ⟨_, rfl, .str _⟩, ⟨_, rfl, .str _⟩, ⟨_, rfl, .str _⟩, ⟨_, rfl, .str _⟩,
      ⟨_, rfl, .str _⟩, ⟨_, rfl, .str _⟩, ⟨_, rfl, .str _⟩, by simp⟩
  · simp only [List.forall_mem_cons]
    exact ⟨⟨_, rfl, .str _⟩, ⟨_, rfl, .str _⟩, by simp⟩
  · simp only [List.forall_mem_cons]
    refine ⟨⟨_, rfl, .obj_of_mem ?_ (by decide)⟩, by simp⟩
    simp only [List.forall_mem_cons]
    exact ⟨⟨_, rfl, .str _⟩, ⟨_, rfl, .str _⟩, ⟨_, rfl, .int _⟩, by simp⟩

theorem readManifest_unique : readManifest.Unique := by
  have hstrings : ∀ ps : List (Text × Json), (ps.map Prod.fst).Nodup →
      (∀ v ∈ ps.map Prod.snd, ∃ s, v = .str s) → (Json.obj ps).Unique := by
    intro ps hk hv
    refine .obj hk fun v hm => ?_
    obtain ⟨s, rfl⟩ := hv v hm
    exact .str s
  refine .obj (by decide) ?_
  simp only [List.map_cons, List.map_nil, List.forall_mem_cons]
  refine ⟨hstrings _ (by decide) (by simp), hstrings _ (by decide) (by simp), ?_, .int _, .str _,
    by simp⟩
  refine .obj (by decide) ?_
  simp only [List.map_cons, List.map_nil, List.forall_mem_cons]
  refine ⟨.obj (by decide) ?_, by simp⟩
  simp only [List.map_cons, List.map_nil, List.forall_mem_cons]
  exact ⟨.str _, .str _, .int _, by simp⟩

theorem tools_undo : Undoes tools epoch manifest (archiveEntries tools epoch manifest files) :=
  ⟨⟨readManifest, rfl, manifest_read, readManifest_unique⟩, fun _ _ _ => ⟨packed, rfl, rfl⟩⟩

theorem manifestData_length : manifestData.length < 8 ^ 11 := by
  decide +kernel

theorem entries_fit : ∀ entry ∈ archiveEntries tools epoch manifest files, FitsUstar entry.1 := by
  intro entry he
  rcases List.mem_cons.mp he with rfl | he
  · exact ⟨.inl ⟨_, rfl, by decide⟩, manifestData_length⟩
  · rw [files, List.map_cons, List.map_nil, List.mem_singleton] at he
    rw [he]
    exact ⟨.inl ⟨_, rfl, by decide⟩, by decide⟩

end Sample

theorem create_and_verify_agree_sample :
    collectPayload Sample.tools.toLibrary [] Sample.tree.node = .ok Sample.files ∧
      ∃ packed, createArchive Sample.tools [] Sample.tree.node none Sample.epoch Sample.info =
          (.ok Sample.manifest, some ⟨packed, 0o644⟩) ∧
        ∃ read, verifyArchive Sample.tools.toLibrary [] (some packed) = .ok read ∧
          read.Rearranged Sample.manifest := by
  have hcollect : collectPayload Sample.tools.toLibrary [] Sample.tree.node = .ok Sample.files := rfl
  have hbuild : buildManifest Sample.tools.toPython Sample.info Sample.files = .ok Sample.manifest := rfl
  obtain ⟨packed, hcreate, hread, -⟩ := create_and_verify_agree Sample.tools [] [] Sample.tree none
    Sample.epoch Sample.info Sample.files Sample.manifest hcollect hbuild Sample.entries_fit
    (by decide) (by decide) Sample.tools_undo
  exact ⟨hcollect, packed, hcreate, hread⟩

end Monutchee.Artifact
