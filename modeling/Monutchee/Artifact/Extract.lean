import Monutchee.Artifact.Archive
import Monutchee.Lib.Tar
import Mathlib.Data.List.Infix

/-!
# Extracting a verified archive

A station extracts the members in archive order into an empty directory: the parents of a
member are created where they are missing, and its file gets the twelve permission bits of the
member. A member cannot go below a file and cannot take the place of a directory.
`verify_archive` compares names as whole texts and modes under a mask of nine bits, so neither
follows from what it checks.
-/

namespace Monutchee.Artifact
open Monutchee.Lib

structure ExtractedFile where
  data : Bytes
  mode : ℕ
  deriving DecidableEq

/-- A directory on disk, by the components of its paths. -/
structure Tree where
  files : List (List Text × ExtractedFile)
  directories : List (List Text)

def Tree.empty : Tree := ⟨[], []⟩

/-- The directories a path lies in, the root of the extraction apart. -/
def parents (path : List Text) : List (List Text) :=
  path.inits.filter fun p => p ≠ [] && p ≠ path

/-- The set-uid, set-gid and sticky bit with the nine permission bits. -/
def twelveBits (mode : ℤ) : ℕ := (mode % 0o10000).toNat

def Tree.extract (t : Tree) (member : Member) : Option Tree :=
  let path := components member.name
  if (parents path).any fun p => p ∈ t.files.map Prod.fst then none
  else if path ∈ t.directories then none
  else some
    { files := t.files.filter (fun file => file.1 ≠ path) ++
        [(path, ⟨member.data, twelveBits member.mode⟩)]
      directories := t.directories ++ parents path }

def extractAll (archive : List Member) : Option Tree := archive.foldlM Tree.extract Tree.empty

theorem mem_parents {p path : List Text} : p ∈ parents path ↔ p <+: path ∧ p ≠ [] ∧ p ≠ path := by
  simp [parents, List.mem_inits]

/-- The path of one member is a directory on the way to the other. -/
def Above (a b : Member) : Prop := components a.name ∈ parents (components b.name)

def Member.entry (member : Member) : List Text × ExtractedFile :=
  (components member.name, ⟨member.data, twelveBits member.mode⟩)

/-- The tree holds exactly what the members of `done` put there. -/
structure Holds (t : Tree) (done : List Member) : Prop where
  files : t.files = done.map Member.entry
  directories : ∀ d, d ∈ t.directories ↔ ∃ m ∈ done, d ∈ parents (components m.name)

theorem holds_empty : Holds Tree.empty [] := ⟨rfl, by simp [Tree.empty]⟩

theorem Holds.mem_files {t : Tree} {done : List Member} (h : Holds t done) {path : List Text} :
    path ∈ t.files.map Prod.fst ↔ ∃ m ∈ done, components m.name = path := by
  simp [h.files, Member.entry]

/-- One member goes in exactly when it is above and below none of those before it. -/
theorem extract_step {t : Tree} {done : List Member} {member : Member} (h : Holds t done)
    (hnew : ∀ m ∈ done, m.name ≠ member.name) :
    (∀ m ∈ done, ¬ Above m member ∧ ¬ Above member m) ∧
        (∃ t', t.extract member = some t' ∧ Holds t' (done ++ [member])) ∨
      (∃ m ∈ done, Above m member ∨ Above member m) ∧ t.extract member = none := by
  unfold Tree.extract
  by_cases hbelow : ∃ m ∈ done, Above m member
  · right
    obtain ⟨m, hm, ha⟩ := hbelow
    refine ⟨⟨m, hm, .inl ha⟩, ?_⟩
    rw [if_pos]
    rw [List.any_eq_true]
    exact ⟨components m.name, ha, by simpa using h.mem_files.mpr ⟨m, hm, rfl⟩⟩
  · have hfirst : ¬ ((parents (components member.name)).any fun p => p ∈ t.files.map Prod.fst) = true := by
      rw [List.any_eq_true]
      rintro ⟨p, hp, hfile⟩
      obtain ⟨m, hm, rfl⟩ := h.mem_files.mp (of_decide_eq_true hfile)
      exact hbelow ⟨m, hm, hp⟩
    rw [if_neg hfirst]
    by_cases habove : ∃ m ∈ done, Above member m
    · right
      obtain ⟨m, hm, ha⟩ := habove
      refine ⟨⟨m, hm, .inr ha⟩, ?_⟩
      rw [if_pos ((h.directories _).mpr ⟨m, hm, ha⟩)]
    · left
      have hsecond : components member.name ∉ t.directories := by
        intro hd
        exact habove ((h.directories _).mp hd)
      rw [if_neg hsecond]
      refine ⟨fun m hm => ⟨fun ha => hbelow ⟨m, hm, ha⟩, fun ha => habove ⟨m, hm, ha⟩⟩, _, rfl, ?_, ?_⟩
      · have hkeep : t.files.filter (fun file => file.1 ≠ components member.name) = t.files := by
          rw [List.filter_eq_self]
          intro file hf
          rw [h.files, List.mem_map] at hf
          obtain ⟨m, hm, rfl⟩ := hf
          exact decide_eq_true fun he => hnew m hm (components_injective he)
        simp only [hkeep]
        rw [h.files, List.map_append]
        rfl
      · intro d
        simp only [List.mem_append, h.directories, List.mem_singleton, or_and_right, exists_or,
          exists_eq_left]

/-- The whole archive goes in exactly when no member is above another. -/
theorem extract_run {l done : List Member} {t : Tree} (h : Holds t done)
    (hnodup : ((done ++ l).map Member.name).Nodup)
    (hbefore : ∀ m ∈ done, ∀ n ∈ done, ¬ Above m n) :
    (∀ m ∈ done ++ l, ∀ n ∈ done ++ l, ¬ Above m n) ∧
        (∃ t', l.foldlM Tree.extract t = some t' ∧ Holds t' (done ++ l)) ∨
      (∃ m ∈ done ++ l, ∃ n ∈ done ++ l, Above m n) ∧ l.foldlM Tree.extract t = none := by
  induction l generalizing done t with
  | nil =>
    left
    rw [List.append_nil]
    exact ⟨hbefore, t, rfl, h⟩
  | cons member rest ih =>
    have hsplit : done ++ member :: rest = done ++ [member] ++ rest := by simp
    have hnew : ∀ m ∈ done, m.name ≠ member.name := by
      rw [List.map_append, List.map_cons, List.nodup_append] at hnodup
      intro m hm
      exact hnodup.2.2 _ (List.mem_map_of_mem hm) _ (List.mem_cons_self ..)
    rw [List.foldlM_cons]
    rcases extract_step h hnew with ⟨hfree, t', ht, hholds⟩ | ⟨⟨m, hm, hcross⟩, hnone⟩
    · rw [ht, hsplit]
      have hself : ¬ Above member member := fun ha => (mem_parents.mp ha).2.2 rfl
      refine ih hholds (by rwa [← hsplit]) ?_
      intro m hm n hn
      rw [List.mem_append, List.mem_singleton] at hm hn
      rcases hm with hm | rfl <;> rcases hn with hn | rfl
      · exact hbefore m hm n hn
      · exact (hfree m hm).1
      · exact (hfree n hn).2
      · exact hself
    · right
      rw [hnone]
      have hmem : m ∈ done ++ member :: rest := List.mem_append_left _ hm
      have hown : member ∈ done ++ member :: rest :=
        List.mem_append_right _ (List.mem_cons_self ..)
      refine ⟨?_, rfl⟩
      rcases hcross with hcross | hcross
      · exact ⟨m, hmem, member, hown, hcross⟩
      · exact ⟨member, hown, m, hmem, hcross⟩

theorem extractAll_some {archive : List Member} (hnodup : (archive.map Member.name).Nodup)
    (hapart : ∀ m ∈ archive, ∀ n ∈ archive, ¬ Above m n) :
    ∃ t, extractAll archive = some t ∧ Holds t archive := by
  have hrun := extract_run (l := archive) holds_empty (by rwa [List.nil_append]) (by simp)
  rw [List.nil_append] at hrun
  rcases hrun with ⟨-, h⟩ | ⟨⟨m, hm, n, hn, ha⟩, -⟩
  · exact h
  · exact absurd ha (hapart m hm n hn)

theorem extractAll_none {archive : List Member} (hnodup : (archive.map Member.name).Nodup)
    {m n : Member} (hm : m ∈ archive) (hn : n ∈ archive) (ha : Above m n) :
    extractAll archive = none := by
  have hrun := extract_run (l := archive) holds_empty (by rwa [List.nil_append]) (by simp)
  rw [List.nil_append] at hrun
  rcases hrun with ⟨hapart, -⟩ | ⟨-, h⟩
  · exact absurd ha (hapart m hm n hn)
  · exact h

/-! ### The extracted tree and the manifest -/

def manifestFiles (manifest : Json) : List (Text × Json) :=
  match obj? manifest with
  | none => []
  | some root => ((root.lookup (text "files")).bind obj?).getD []

theorem manifestFiles_eq {lib : Python} {m : Parts} (h : Accepted lib m) :
    manifestFiles (.obj m.root) = m.files := by
  simp [manifestFiles, obj?, h.files]

/-- The tree is what the manifest says: its files and no others beside the manifest and a signature,
each with the listed size, digest and mode. -/
structure AsListed (lib : Library) (files : List (Text × Json)) (archive : List Member) (t : Tree) :
    Prop where
  exact : ∀ path, path ∈ t.files.map Prod.fst ↔ ∃ name, path = components name ∧
    (name ∈ keys files ∨ name = MANIFEST_NAME ∨
      name = SIGNATURE_NAME ∧ SIGNATURE_NAME ∈ archive.map Member.name)
  payload : ∀ name descriptor, files.lookup name = some (.obj descriptor) →
    ∃ file, t.files.lookup (components name) = some file ∧
      descriptor.lookup (text "size") = some (.int file.data.length) ∧
      descriptor.lookup (text "sha256") = some (.str (lib.sha256 file.data)) ∧
      descriptor.lookup (text "mode") = some (.str (octal file.mode))

theorem lookup_entry {archive : List Member} {member : Member}
    (hnodup : (archive.map Member.name).Nodup) (h : member ∈ archive) :
    (archive.map Member.entry).lookup (components member.name) = some member.entry.2 := by
  induction archive with
  | nil => cases h
  | cons m rest ih =>
    rw [List.map_cons, List.nodup_cons] at hnodup
    rw [List.map_cons, List.lookup_cons]
    by_cases hname : m.name = member.name
    · have he : m = member := by
        rcases List.mem_cons.mp h with rfl | hmem
        · rfl
        · exact absurd (List.mem_map.mpr ⟨member, hmem, hname.symm⟩) hnodup.1
      rw [he]
      simp [Member.entry]
    · have hpath : (components member.name == m.entry.1) = false := by
        rw [beq_eq_false_iff_ne]
        exact fun he => hname (components_injective he).symm
      rw [hpath]
      rcases List.mem_cons.mp h with rfl | hmem
      · exact absurd rfl hname
      · exact ih hnodup.2 hmem

/-- Four octal digits tell twelve bits apart. -/
theorem octal_twelveBits {mode : ℤ} :
    octal (twelveBits mode) = octal (permissions mode) ↔ twelveBits mode < 0o1000 := by
  unfold octal twelveBits permissions
  have h1 : (mode % 0o1000).toNat = (mode % 0o10000).toNat % 0o1000 := by omega
  have h2 : (mode % 0o10000).toNat < 0o10000 := by omega
  rw [h1]
  generalize (mode % 0o10000).toNat = n at *
  simp only [List.cons.injEq, and_true]
  omega

section Verified

variable {lib : Library} {archive : List Member} {manifest : Json} {own : Member} {m : Parts}

theorem Verified.reserved_or_listed (h : Verified lib archive manifest own m) {member : Member}
    (hm : member ∈ archive) : member.name ∈ keys m.files ∨ member.name = MANIFEST_NAME ∨
      member.name = SIGNATURE_NAME ∧ SIGNATURE_NAME ∈ archive.map Member.name := by
  have hname : member.name ∈ archive.map Member.name := List.mem_map_of_mem hm
  by_cases hr : member.name ∈ RESERVED_NAMES
  · right
    simp only [RESERVED_NAMES, List.mem_cons, List.not_mem_nil, or_false] at hr
    rcases hr with hr | hr
    · exact .inl hr
    · exact .inr ⟨hr, by rwa [← hr]⟩
  · exact .inl ((h.names _).mpr ⟨hname, hr⟩)

/-- The names in the tree are right as soon as the archive goes in at all. -/
theorem Verified.exact (h : Verified lib archive manifest own m) {t : Tree} (ht : Holds t archive)
    (path : List Text) : path ∈ t.files.map Prod.fst ↔ ∃ name, path = components name ∧
      (name ∈ keys m.files ∨ name = MANIFEST_NAME ∨
        name = SIGNATURE_NAME ∧ SIGNATURE_NAME ∈ archive.map Member.name) := by
  have hown := findMember_some h.found
  rw [ht.mem_files]
  constructor
  · rintro ⟨member, hm, rfl⟩
    exact ⟨member.name, rfl, h.reserved_or_listed hm⟩
  · rintro ⟨name, rfl, hname⟩
    have hmem : name ∈ archive.map Member.name := by
      rcases hname with hname | rfl | ⟨rfl, hs⟩
      · exact ((h.names name).mp hname).1
      · exact List.mem_map.mpr ⟨own, hown⟩
      · exact hs
    obtain ⟨member, hm, rfl⟩ := List.mem_map.mp hmem
    exact ⟨member, hm, rfl⟩

theorem Verified.asListed_iff (h : Verified lib archive manifest own m) {t : Tree}
    (ht : Holds t archive) : AsListed lib m.files archive t ↔
      ∀ member ∈ archive, member.name ∉ RESERVED_NAMES → twelveBits member.mode < 0o1000 := by
  constructor
  · intro hl member hm hr
    have hlisted : member.name ∈ keys m.files :=
      (h.names _).mpr ⟨List.mem_map_of_mem hm, hr⟩
    obtain ⟨descriptor, found, hd, hfound, hverified⟩ := h.files _ hlisted
    rw [findMember_of_mem h.nodup hm] at hfound
    cases hfound
    obtain ⟨file, hfile, -, -, hmode⟩ := hl.payload _ _ hd
    rw [ht.files, lookup_entry h.nodup hm] at hfile
    cases hfile
    rw [hverified.mode] at hmode
    have hoctal : octal (permissions member.mode) = octal (twelveBits member.mode) :=
      Json.str.inj (Option.some.inj hmode)
    exact octal_twelveBits.mp hoctal.symm
  · intro hbits
    refine ⟨h.exact ht, ?_⟩
    intro name descriptor hd
    have hname := mem_keys_of_lookup hd
    obtain ⟨d, member, hd', hfound, hverified⟩ := h.files name hname
    rw [hd] at hd'
    cases hd'
    obtain ⟨hm, rfl⟩ := findMember_some hfound
    refine ⟨member.entry.2, ?_, hverified.size, hverified.sha256, ?_⟩
    · rw [ht.files]
      exact lookup_entry h.nodup hm
    · rw [hverified.mode]
      have := octal_twelveBits.mpr (hbits member hm ((h.names _).mp hname).2)
      simp only [Member.entry, this]

end Verified

/-- A verified archive extracts to what its manifest says exactly when no payload member has one of
the three special bits and no member lies below another. -/
theorem verified_artifact_extracts (lib : Library) (path : Text) (bytes : Bytes)
    (members : List Member) (manifest : Json) (hread : lib.readTar bytes = .ok members)
    (h : verifyArchive lib path (some bytes) = .ok manifest) :
    (∃ t, extractAll members = some t ∧ AsListed lib (manifestFiles manifest) members t) ↔
      (∀ m ∈ members, m.name ∉ RESERVED_NAMES → twelveBits m.mode < 0o1000) ∧
        ∀ a ∈ members, ∀ b ∈ members, ¬ Above a b := by
  simp only [verifyArchive, hread] at h
  obtain ⟨own, m, hv⟩ := verifyMembers_ok.mp h
  rw [hv.root, manifestFiles_eq hv.accepted]
  constructor
  · rintro ⟨t, ht, hl⟩
    have hapart : ∀ a ∈ members, ∀ b ∈ members, ¬ Above a b := by
      intro a ha b hb hab
      rw [extractAll_none hv.nodup ha hb hab] at ht
      cases ht
    obtain ⟨t', ht', hholds⟩ := extractAll_some hv.nodup hapart
    rw [ht] at ht'
    cases ht'
    exact ⟨(hv.asListed_iff hholds).mp hl, hapart⟩
  · rintro ⟨hbits, hapart⟩
    obtain ⟨t, ht, hholds⟩ := extractAll_some hv.nodup hapart
    exact ⟨t, ht, (hv.asListed_iff hholds).mpr hbits⟩

/-! ### An archive of one executable script -/

namespace Sample

/-- What `json.dumps(manifest, indent=2, sort_keys=True)` prints, line by line. -/
def manifestLines : List String :=
  ["\x7b",
    "  \"artifact\": \x7b",
    "    \"buildId\": \"20240101000000\",",
    "    \"createdUtc\": \"2024-01-01T00:00:00Z\",",
    "    \"machine\": \"example\",",
    "    \"name\": \"example-jtag-image\",",
    "    \"operation\": \"jtag-boot\",",
    "    \"product\": \"example\",",
    "    \"vendor\": \"xilinx\",",
    "    \"version\": \"2026.1\"",
    "  \x7d,",
    "  \"executor\": \x7b",
    "    \"entrypoint\": \"bin/run\",",
    "    \"type\": \"xilinx-xsdb\"",
    "  \x7d,",
    "  \"files\": \x7b",
    "    \"bin/run\": \x7b",
    "      \"mode\": \"0755\",",
    "      \"sha256\": \"a8076d3d28d21e02012b20eaf7dbf75409a6277134439025f282e368e3305abf\",",
    "      \"size\": 10",
    "    \x7d",
    "  \x7d,",
    "  \"formatVersion\": 2,",
    "  \"schema\": \"mnc-station-artifact\"",
    "\x7d"]

def manifestData : Bytes := Tar.bytesOf (manifestLines.flatMap fun line => text line ++ [10])

def script : Bytes := Tar.bytesOf (text "#!/bin/sh" ++ [10])

/-- The manifest as it is read back, its keys in the order they were written. -/
def readManifest : Json := .obj
  [(text "artifact", .obj
      [(text "buildId", .str (text "20240101000000")), (text "createdUtc", .str created),
        (text "machine", .str (text "example")), (text "name", .str (text "example-jtag-image")),
        (text "operation", .str (text "jtag-boot")), (text "product", .str (text "example")),
        (text "vendor", .str (text "xilinx")), (text "version", .str (text "2026.1"))]),
    (text "executor", .obj
      [(text "entrypoint", .str (text "bin/run")), (text "type", .str (text "xilinx-xsdb"))]),
    (text "files", .obj [(text "bin/run", .obj
      [(text "mode", .str (text "0755")), (text "sha256", .str digest), (text "size", .int 10)])]),
    (text "formatVersion", .int 2), (text "schema", .str SCHEMA)]

def archive (mode : ℤ) : List Member :=
  [⟨MANIFEST_NAME, 0o644, 0, 0, .regular, manifestData⟩,
    ⟨text "bin/run", mode, 0, 0, .regular, script⟩]

/-- The archive with the script as it is listed, in gzip. -/
def packed : Bytes :=
   [31, 139, 8, 0, 128, 0, 146, 101, 2, 255, 237, 213, 65, 111, 219, 32, 20, 0, 96, 159, 243, 43, 50, 239,
    58, 183, 15, 140, 77, 218, 127, 176, 251, 182, 195, 110, 216, 224, 134, 42, 6, 11, 240, 148, 110, 202,
    127, 31, 80, 59, 201, 42, 245, 216, 74, 219, 222, 39, 75, 86, 30, 143, 7, 194, 64, 70, 97, 244, 160,
    124, 184, 121, 244, 214, 20, 111, 3, 162, 150, 177, 252, 142, 94, 190, 9, 180, 164, 32, 172, 97, 140, 1,
    208, 20, 39, 192, 56, 43, 182, 80, 188, 131, 217, 7, 225, 226, 84, 138, 255, 211, 175, 205, 118, 91, 10,
    23, 244, 32, 250, 80, 222, 111, 211, 239, 24, 233, 102, 125, 144, 159, 101, 12, 148, 20, 40, 139, 95,
    132, 60, 127, 172, 242, 211, 115, 66, 239, 148, 8, 74, 126, 13, 253, 154, 83, 1, 137, 207, 23, 128, 251,
    252, 124, 95, 51, 71, 209, 239, 181, 81, 41, 77, 29, 197, 56, 29, 212, 218, 98, 196, 120, 29, 174, 30,
    131, 120, 168, 244, 40, 30, 206, 25, 118, 82, 78, 4, 109, 77, 74, 203, 205, 157, 181, 97, 109, 157, 156,
    149, 115, 158, 245, 203, 202, 63, 148, 145, 214, 165, 134, 163, 62, 104, 115, 188, 196, 157, 95, 170,
    197, 41, 183, 55, 164, 140, 241, 83, 106, 140, 21, 84, 63, 135, 220, 105, 89, 3, 101, 130, 123, 154,
    172, 54, 121, 132, 78, 155, 91, 55, 155, 181, 82, 120, 154, 212, 165, 126, 117, 244, 178, 187, 212, 26,
    244, 65, 249, 171, 197, 92, 186, 174, 129, 180, 40, 86, 230, 238, 192, 155, 102, 41, 25, 163, 126, 47,
    104, 211, 166, 184, 216, 1, 111, 101, 45, 233, 78, 82, 162, 226, 169, 32, 180, 163, 160, 196, 192, 101,
    55, 240, 134, 193, 157, 104, 41, 231, 164, 102, 172, 190, 3, 218, 12, 116, 71, 85, 221, 238, 84, 93, 67,
    35, 186, 225, 170, 166, 254, 153, 70, 34, 144, 3, 167, 203, 28, 173, 27, 69, 248, 118, 94, 16, 154, 163,
    190, 223, 171, 81, 164, 25, 140, 166, 175, 226, 209, 72, 139, 95, 157, 247, 199, 230, 180, 41, 208, 191,
    100, 217, 155, 111, 58, 70, 186, 55, 226, 62, 127, 237, 254, 143, 255, 0, 244, 207, 251, 31, 56, 229,
    128, 247, 255, 123, 248, 248, 225, 54, 109, 1, 191, 199, 131, 141, 16, 66, 8, 33, 132, 16, 66, 8, 33,
    132, 16, 66, 8, 33, 132, 16, 66, 8, 253, 181, 126, 3, 162, 113, 90, 135, 0, 40, 0, 0]

/-- The archive with a set-uid script. -/
def setuid : Bytes :=
   [31, 139, 8, 0, 128, 0, 146, 101, 2, 255, 237, 213, 65, 111, 219, 32, 20, 0, 96, 159, 243, 43, 50, 239,
    58, 183, 15, 140, 237, 180, 255, 96, 247, 109, 135, 221, 158, 13, 110, 168, 98, 176, 0, 79, 233, 166,
    252, 247, 129, 107, 39, 89, 165, 30, 91, 105, 219, 251, 100, 201, 202, 227, 241, 64, 24, 200, 128, 70,
    247, 202, 135, 155, 71, 111, 77, 246, 54, 32, 170, 133, 152, 223, 209, 203, 55, 131, 154, 101, 76, 84,
    66, 8, 0, 158, 226, 12, 68, 35, 178, 45, 100, 239, 96, 242, 1, 93, 156, 74, 246, 127, 250, 181, 217,
    110, 115, 116, 65, 247, 216, 133, 252, 126, 155, 126, 199, 72, 59, 233, 131, 252, 44, 99, 32, 231, 192,
    69, 252, 34, 236, 249, 99, 229, 159, 158, 19, 58, 167, 48, 40, 249, 53, 116, 107, 78, 1, 44, 62, 95, 0,
    238, 231, 231, 251, 154, 57, 96, 183, 215, 70, 165, 52, 117, 196, 97, 60, 168, 181, 197, 224, 112, 29,
    46, 30, 3, 62, 20, 122, 192, 135, 115, 134, 29, 149, 195, 160, 173, 73, 105, 115, 115, 107, 109, 88, 91,
    71, 103, 229, 52, 207, 250, 101, 229, 31, 202, 72, 235, 82, 195, 81, 31, 180, 57, 94, 226, 206, 47, 213,
    226, 148, 235, 27, 150, 199, 248, 41, 53, 198, 10, 170, 155, 194, 220, 105, 89, 3, 101, 130, 123, 26,
    173, 54, 243, 8, 173, 54, 183, 110, 50, 107, 165, 240, 52, 170, 75, 253, 226, 232, 101, 123, 169, 213,
    235, 131, 242, 87, 139, 185, 116, 93, 3, 105, 81, 172, 156, 187, 67, 83, 85, 75, 201, 24, 245, 123, 228,
    85, 157, 226, 184, 131, 166, 150, 165, 228, 59, 201, 153, 138, 167, 130, 241, 150, 131, 194, 190, 145,
    109, 223, 84, 2, 238, 176, 230, 77, 195, 74, 33, 202, 59, 224, 85, 207, 119, 92, 149, 245, 78, 149, 37,
    84, 216, 246, 87, 53, 245, 207, 52, 18, 131, 57, 112, 186, 204, 209, 186, 1, 195, 183, 243, 130, 240,
    57, 234, 187, 189, 26, 48, 205, 96, 48, 93, 17, 143, 70, 90, 252, 226, 188, 63, 54, 167, 77, 70, 254,
    37, 203, 222, 124, 211, 49, 226, 181, 33, 226, 62, 127, 237, 254, 143, 255, 0, 252, 207, 251, 31, 26,
    78, 247, 255, 251, 248, 248, 225, 54, 109, 1, 191, 167, 131, 77, 8, 33, 132, 16, 66, 8, 33, 132, 16, 66,
    8, 33, 132, 16, 66, 8, 33, 132, 252, 181, 126, 3, 141, 227, 38, 60, 0, 40, 0, 0]

/-- The library on the files of the sample: it reads one archive and one text. -/
def library (mode : ℤ) : Library where
  toPython := python
  sha256 data := if data = script then digest else []
  loads _ := some readManifest
  readTar _ := .ok (archive mode)

end Sample

theorem verified_artifact_extracts_sample :
    verifyArchive (Sample.library 0o755) [] (some Sample.packed) = .ok Sample.readManifest ∧
      ∃ t, extractAll (Sample.archive 0o755) = some t ∧
        AsListed (Sample.library 0o755) (manifestFiles Sample.readManifest) (Sample.archive 0o755) t := by
  have h : verifyArchive (Sample.library 0o755) [] (some Sample.packed) = .ok Sample.readManifest := rfl
  refine ⟨h, (verified_artifact_extracts (Sample.library 0o755) [] Sample.packed (Sample.archive 0o755)
    Sample.readManifest rfl h).mpr ⟨by decide, ?_⟩⟩
  unfold Above
  decide

/-- A set-uid script passes for the listed 0755. -/
theorem verified_setuid_extracts_otherwise :
    verifyArchive (Sample.library 0o4755) [] (some Sample.setuid) = .ok Sample.readManifest ∧
      (Sample.library 0o4755).readTar Sample.setuid = .ok (Sample.archive 0o4755) ∧
      ¬ ∃ t, extractAll (Sample.archive 0o4755) = some t ∧
        AsListed (Sample.library 0o4755) (manifestFiles Sample.readManifest)
          (Sample.archive 0o4755) t := by
  refine ⟨rfl, rfl, ?_⟩
  rintro ⟨t, ht, hl⟩
  cases ht
  obtain ⟨file, hfile, -, -, hmode⟩ := hl.payload (text "bin/run") _ rfl
  cases hfile
  have hoctal : text "0755" = octal (twelveBits 0o4755) := Json.str.inj (Option.some.inj hmode)
  exact absurd hoctal (by decide)

end Monutchee.Artifact
