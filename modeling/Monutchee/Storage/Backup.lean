import Monutchee.Lib.Files
import Monutchee.Storage.Policy

/-!
# The backup archive (mnc-storage:146-179, 362-364)

`verify_archive` reads the members of a backup and checks them against the manifest among them;
`extractall` puts them into an empty directory. The tar reader, the JSON reader and SHA-256 are
the interpreter's library.
-/

namespace Monutchee.Storage.Restore
open Monutchee.Lib Monutchee.Lib.Files
open Monutchee.Storage.Boot (Error require require_ok numeric? hashable iterated dictionary dictionary_ok
  item itemOr relativePath slashParts)

abbrev Bytes := List UInt8

inductive Stored where
  | file (data : Bytes)
  | directory
  deriving DecidableEq

/-! ### Objects -/

inductive Kind where
  | file | directory | special
  deriving DecidableEq

/-- An object on a partition. What lies below a link is listed below it, and `leads` says what
following the link ends at, if anything. -/
inductive Entry where
  | stored (s : Stored)
  | link (leads : Option Kind)
  | special
  deriving DecidableEq

/-- `Path.exists`, which follows links. -/
def Entry.exists : Entry → Bool
  | .link leads => leads.isSome
  | _ => true

/-- `Path.is_dir`, which follows links. -/
def Entry.isDir : Entry → Bool
  | .stored .directory => true
  | .link (some .directory) => true
  | _ => false

abbrev Disk := Tree Text Entry

/-! ### Members -/

inductive MemberKind where
  | regular | directory | other
  deriving DecidableEq

/-- A `TarInfo`. `size` is the field of the header, which in a directory may be negative. `data` is
what `extractfile` reads; `written` is what extraction puts into the file, which goes through the map
of a sparse file in another way, and nothing where that copy fails. `owned` and `timed` say that
`os.chown` and `os.utime` can convert the owner and the time. -/
structure Member where
  name : Text
  mode : ℤ
  size : ℤ
  kind : MemberKind
  data : Bytes
  written : Option Bytes
  owned : Bool
  timed : Bool
  deriving DecidableEq

/-- A member that is extracted as it is read. -/
def Member.plain (name : Text) (mode : ℤ) (kind : MemberKind) (data : Bytes) : Member :=
  ⟨name, mode, data.length, kind, data, some data, true, true⟩

def Member.isfile (m : Member) : Bool := m.kind == .regular
def Member.isdir (m : Member) : Bool := m.kind == .directory
def Member.path (m : Member) : List Text := slashParts m.name

/-- The mode of `tarfile.open`: `'r:'` takes the file for a plain archive; `'r'` first tries it as a
compressed one. -/
inductive Opening where
  | plain | any
  deriving DecidableEq

structure Reader where
  /-- `hexdigest` -/
  sha256 : Bytes → Text
  /-- `json.load`: a dictionary has each of its keys once. -/
  load : Bytes → Except Error Json
  getmembers : Opening → Bytes → Except Error (List Member)
  /-- What `extractall` with the filter `fully_trusted` leaves in an empty directory. -/
  unpack : List Member → Except Error Disk

/-- The file of a backup; `regular` says that it is a file and not a link to one. -/
structure BackupFile where
  regular : Bool
  content : Bytes

/-! ### verify_archive -/

def MANIFEST : Text := text "manifest.json"
def PRODUCT : Text := text "productInfo.json"
def ACTIVE : Text := text "settings/active.json"

/-- The first loop; `names` is the set so far. -/
def collect (names : List Text) : List Member → Except Error (List Text)
  | [] => return names
  | m :: rest => do
    require (relativePath m.name && m.name ∉ names) (text "unsafe or duplicate backup member")
    require (m.isfile || m.isdir) (text "backup contains link or special file")
    require (m.name ∈ [text "settings", PRODUCT, MANIFEST] || (text "settings/").isPrefixOf m.name)
      (text "unexpected backup member")
    -- m.mode & 0o7000
    require (m.mode % 0o10000 < 0o1000) (text "backup contains special permissions")
    collect (names ++ [m.name]) rest

/-- `by_name[name]` -/
def member (members : List Member) (name : Text) : Except Error Member :=
  match members.find? fun m => m.name == name with
  | some m => .ok m
  | none => .error .other

/-- `Path(m.name).parents`, as `as_posix` writes them; the last of them, `.`, is no member's name. -/
def parentNames (m : Member) : List Text := (ancestors m.path).map fun q => [47].intercalate q

def checkParents (members : List Member) (m : Member) : Except Error Unit :=
  (parentNames m).forM fun parent =>
    match members.find? fun other => other.name == parent with
    | none => pure ()
    | some other => require other.isdir (text "backup ancestor is not a directory")

/-- The keys of `sha256` are the names of the files. -/
def sameNames (listed : List Json) (expected : List Text) : Bool :=
  (listed.all fun v => match v with | .str s => s ∈ expected | _ => false) &&
    expected.all fun name => listed.any fun v => match v with | .str s => s == name | _ => false

def isDict : Json → Bool
  | .obj _ => true
  | _ => false

def loadMember (lib : Reader) (members : List Member) (name : Text) : Except Error Json := do
  let m ← member members name
  lib.load m.data

def checkSum (lib : Reader) (members : List Member) (entry : Text × Json) : Except Error Unit := do
  let m ← member members entry.1
  require (match entry.2 with | .str s => s == lib.sha256 m.data | _ => false)
    (text "backup checksum failed: " ++ entry.1)

def verifyMembers (lib : Reader) (members : List Member) : Except Error (List (Text × Json)) := do
  let names ← collect [] members
  require ((members.map Member.size).sum ≤ 16 * 1024 * 1024) (text "settings backup exceeds 16 MiB")
  require ([MANIFEST, PRODUCT, ACTIVE].all fun name => name ∈ names) (text "incomplete backup")
  [MANIFEST, PRODUCT, ACTIVE].forM fun name => do
    let m ← member members name
    require m.isfile (text "required backup document is not a file")
  members.forM (checkParents members)
  let document ← loadMember lib members MANIFEST
  let manifest ← dictionary document
  require (numeric? (itemOr manifest (text "schema_version") .null) == some 1)
    (text "unsupported backup version")
  let value ← item manifest (text "sha256")
  let listed ← iterated value
  refuse (!listed.all hashable) .other
  require (sameNames listed ((members.filter fun m => m.isfile && m.name ≠ MANIFEST).map Member.name))
    (text "backup manifest mismatch")
  let sums ← dictionary value
  sums.forM (checkSum lib members)
  let active ← loadMember lib members ACTIVE
  require (isDict active) (text "invalid settings JSON")
  let product ← loadMember lib members PRODUCT
  require (isDict product) (text "invalid product JSON")
  return manifest

def verifyArchive (lib : Reader) (file : BackupFile) : Except Error (List (Text × Json)) := do
  require file.regular (text "backup is not a regular archive")
  require (file.content.length ≤ 32 * 1024 * 1024) (text "backup exceeds 32 MiB")
  let members ← lib.getmembers .plain file.content
  verifyMembers lib members

/-- What a restore relies on in a verified backup. -/
structure Verified (members : List Member) : Prop where
  nodup : (members.map Member.name).Nodup
  plain : ∀ m ∈ members, m.isfile = true ∨ m.isdir = true
  apart : ∀ m ∈ members, ∀ m' ∈ members, m.path ∈ ancestors m'.path → m.isdir = true
  documents : ∀ name ∈ [MANIFEST, PRODUCT, ACTIVE], ∃ m ∈ members, m.name = name ∧ m.isfile = true

theorem collect_ok {names : List Text} {members : List Member} {all : List Text}
    (hnames : names.Nodup) (h : collect names members = .ok all) :
    (names ++ members.map Member.name).Nodup ∧ ∀ m ∈ members, m.isfile = true ∨ m.isdir = true := by
  induction members generalizing names with
  | nil =>
    rw [List.map_nil, List.append_nil]
    exact ⟨hnames, by simp⟩
  | cons m rest ih =>
    simp only [collect, bind_ok, require_ok, Bool.and_eq_true, Bool.or_eq_true, decide_eq_true_eq] at h
    obtain ⟨-, ⟨-, hnew⟩, -, hkind, -, -, -, -, hrest⟩ := h
    have hnames' : (names ++ [m.name]).Nodup := by
      rw [List.nodup_append]
      refine ⟨hnames, by simp, ?_⟩
      intro a ha b hb hab
      rw [List.mem_singleton] at hb
      exact hnew (by rwa [← hb, ← hab])
    obtain ⟨h1, h2⟩ := ih hnames' hrest
    refine ⟨by simpa using h1, ?_⟩
    intro x hx
    rcases List.mem_cons.mp hx with rfl | hx
    · exact hkind
    · exact h2 x hx

theorem member_ok {members : List Member} {name : Text} {m : Member}
    (h : member members name = .ok m) : m ∈ members ∧ m.name = name := by
  unfold member at h
  split at h
  · rename_i found hfound
    cases h
    exact ⟨List.mem_of_find?_eq_some hfound, by simpa using List.find?_some hfound⟩
  · cases h

theorem find?_of_mem {members : List Member} (hnodup : (members.map Member.name).Nodup) {m : Member}
    (h : m ∈ members) : (members.find? fun other => other.name == m.name) = some m := by
  induction members with
  | nil => cases h
  | cons x rest ih =>
    rw [List.map_cons, List.nodup_cons] at hnodup
    rw [List.find?_cons]
    rcases List.mem_cons.mp h with rfl | hrest
    · simp
    · have hne : (x.name == m.name) = false := by
        rw [beq_eq_false_iff_ne]
        intro he
        exact hnodup.1 (he ▸ List.mem_map_of_mem hrest)
      rw [hne]
      exact ih hnodup.2 hrest

theorem joined_path (m : Member) : [47].intercalate m.path = m.name := List.intercalate_splitOn 47

theorem path_injective {m m' : Member} (h : m.path = m'.path) : m.name = m'.name := by
  rw [← joined_path m, ← joined_path m', h]

theorem path_ne_nil (m : Member) : m.path ≠ [] := List.splitOn_ne_nil _ _

theorem checkParents_ok {members : List Member} (hnodup : (members.map Member.name).Nodup)
    {m m' : Member} (hm : m ∈ members) (h : checkParents members m' = .ok ())
    (ha : m.path ∈ ancestors m'.path) : m.isdir = true := by
  have hname : m.name ∈ parentNames m' := List.mem_map.mpr ⟨m.path, ha, joined_path m⟩
  have hround := forM_ok.mp h m.name hname
  rw [find?_of_mem hnodup hm] at hround
  exact require_ok.mp hround

theorem verifyMembers_ok {lib : Reader} {members : List Member} {manifest : List (Text × Json)}
    (h : verifyMembers lib members = .ok manifest) : Verified members := by
  unfold verifyMembers at h
  simp only [bind_ok, require_ok] at h
  obtain ⟨names, hcollect, ⟨⟩, -, ⟨⟩, -, ⟨⟩, hdocuments, ⟨⟩, hparents, -⟩ := h
  obtain ⟨hnodup, hplain⟩ := collect_ok List.nodup_nil hcollect
  rw [List.nil_append] at hnodup
  refine ⟨hnodup, hplain, ?_, ?_⟩
  · intro m hm m' hm' ha
    exact checkParents_ok hnodup hm (forM_ok.mp hparents m' hm') ha
  · intro name hname
    have hround := forM_ok.mp hdocuments name hname
    simp only [bind_ok, require_ok] at hround
    obtain ⟨m, hm, hfile⟩ := hround
    exact ⟨m, (member_ok hm).1, (member_ok hm).2, hfile⟩

theorem verifyArchive_ok {lib : Reader} {file : BackupFile} {manifest : List (Text × Json)}
    (h : verifyArchive lib file = .ok manifest) :
    ∃ members, lib.getmembers .plain file.content = .ok members ∧ Verified members := by
  unfold verifyArchive at h
  simp only [bind_ok, require_ok] at h
  obtain ⟨-, -, -, -, members, hmembers, hverified⟩ := h
  exact ⟨members, hmembers, verifyMembers_ok hverified⟩

/-! ### extractall -/

def Member.stored (m : Member) : Stored := if m.isdir then .directory else .file m.data

/-- A directory on the way to a member, created where it is missing. -/
def makeParents : List (List Text) → Tree Text Stored → Except Error (Tree Text Stored)
  | [], t => .ok t
  | q :: rest, t =>
    match t.find q with
    | some (.file _) => .error .other
    | _ => makeParents rest (t.add q .directory)

/-- `extract` of one member, a file or a directory. A file is written over a file. -/
def extractMember (t : Tree Text Stored) (m : Member) : Except Error (Tree Text Stored) := do
  let t ← makeParents (ancestors m.path) t
  match t.find m.path, m.stored with
  | some (.file _), .directory => .error .other
  | some .directory, .file _ => .error .other
  | some _, stored => .ok (t.change m.path fun _ => stored)
  | none, stored => .ok (t.add m.path stored)

def extractAll (members : List Member) : Except Error (Tree Text Stored) :=
  members.foldlM extractMember Tree.empty

/-- What the library leaves in an empty directory of members that are extracted as they are read. -/
def unpackPlain (members : List Member) : Except Error Disk := do
  let t ← extractAll members
  return t.map .stored

/-- What the archive holds at a path: a member, or a directory on the way to one. -/
def archived (members : List Member) (path : List Text) : Option Stored :=
  match members.find? fun m => m.path == path with
  | some m => some m.stored
  | none => if members.any fun m => path ∈ ancestors m.path then some .directory else none

theorem makeParents_ok {l : List (List Text)} {t : Tree Text Stored}
    (h : ∀ q ∈ l, t.find q = none ∨ t.find q = some .directory) :
    ∃ t', makeParents l t = .ok t' ∧
      ∀ q, t'.find q = (t.find q).or (if q ∈ l then some .directory else none) := by
  induction l generalizing t with
  | nil => exact ⟨t, rfl, by simp⟩
  | cons a rest ih =>
    have hnext : ∀ q ∈ rest, (t.add a .directory).find q = none ∨
        (t.add a .directory).find q = some .directory := by
      intro q hq
      rw [Tree.find_add]
      rcases h q (List.mem_cons_of_mem _ hq) with hn | hd
      · rw [hn]
        by_cases hqa : q = a <;> simp [hqa]
      · rw [hd]
        exact .inr rfl
    obtain ⟨t', ht', hfind⟩ := ih hnext
    refine ⟨t', ?_, ?_⟩
    · unfold makeParents
      rcases h a (List.mem_cons_self ..) with hn | hd
      · rw [hn]
        exact ht'
      · rw [hd]
        exact ht'
    · intro q
      rw [hfind, Tree.find_add, Option.or_assoc]
      by_cases hqa : q = a <;> simp [hqa]

theorem archived_of_mem {members : List Member} (hnodup : (members.map Member.name).Nodup) {m : Member}
    (h : m ∈ members) : archived members m.path = some m.stored := by
  have hfind : (members.find? fun other => other.path == m.path) = some m := by
    rw [← find?_of_mem hnodup h]
    congr 1
    funext other
    rw [Bool.eq_iff_iff, beq_iff_eq, beq_iff_eq]
    exact ⟨path_injective, fun hn => by rw [Member.path, hn, Member.path]⟩
  rw [archived, hfind]

theorem archived_append {done : List Member} {m : Member} {path : List Text}
    (hpath : path ≠ m.path) : archived (done ++ [m]) path =
      (archived done path).or (if path ∈ ancestors m.path then some .directory else none) := by
  have hne : (m.path == path) = false := beq_false_of_ne fun h => hpath h.symm
  unfold archived
  rw [List.find?_append]
  cases hfind : done.find? fun m => m.path == path with
  | some found => simp
  | none =>
    simp only [Option.none_or, List.find?_cons, hne, List.find?_nil, List.any_append, List.any_cons,
      List.any_nil, Bool.or_false]
    by_cases hany : (done.any fun m => path ∈ ancestors m.path) = true
    · simp [hany]
    · by_cases ha : path ∈ ancestors m.path <;> simp [hany, ha]

/-- What is archived above a member is a directory. -/
theorem archived_above {done : List Member} {m : Member} (hbelow : ∀ x ∈ done, x.path ∈ ancestors m.path → x.isdir = true) {q : List Text}
    {o : Stored} (hq : q ∈ ancestors m.path) (h : archived done q = some o) : o = .directory := by
  unfold archived at h
  split at h
  · rename_i found hfound
    have hpath : found.path = q := by simpa using List.find?_some hfound
    have hdir := hbelow found (List.mem_of_find?_eq_some hfound) (hpath ▸ hq)
    cases h
    rw [Member.stored, if_pos hdir]
  · split at h
    · cases h
      rfl
    · cases h

/-- At the place of a new member is nothing, or a directory on the way to another if it is one. -/
theorem archived_own {done : List Member} {m : Member} (hnodup : ((done ++ [m]).map Member.name).Nodup)
    (habove : ∀ x ∈ done, m.path ∈ ancestors x.path → m.isdir = true) :
    archived done m.path = none ∨ archived done m.path = some .directory ∧ m.isdir = true := by
  have hnone : (done.find? fun x => x.path == m.path) = none := by
    rw [List.find?_eq_none]
    intro x hx he
    rw [List.map_append, List.nodup_append] at hnodup
    exact hnodup.2.2 _ (List.mem_map_of_mem hx) m.name (by simp) (path_injective (beq_iff_eq.mp he))
  rw [archived, hnone]
  by_cases hany : (done.any fun x => m.path ∈ ancestors x.path) = true
  · obtain ⟨x, hx, ha⟩ := List.any_eq_true.mp hany
    exact .inr ⟨if_pos hany, habove x hx (of_decide_eq_true ha)⟩
  · exact .inl (if_neg hany)

/-- The tree holds what the members of `done` put there. -/
def Extracted (t : Tree Text Stored) (done : List Member) : Prop := ∀ path, t.find path = archived done path

theorem extract_step {t : Tree Text Stored} {done : List Member} {m : Member} (h : Extracted t done)
    (hnodup : ((done ++ [m]).map Member.name).Nodup)
    (hbelow : ∀ m' ∈ done, m'.path ∈ ancestors m.path → m'.isdir = true)
    (habove : ∀ m' ∈ done, m.path ∈ ancestors m'.path → m.isdir = true) :
    ∃ t', extractMember t m = .ok t' ∧ Extracted t' (done ++ [m]) := by
  have hparents : ∀ q ∈ ancestors m.path, t.find q = none ∨ t.find q = some .directory := by
    intro q hq
    rw [h q]
    cases ha : archived done q with
    | none => exact .inl rfl
    | some o => exact .inr (by rw [archived_above hbelow hq ha])
  obtain ⟨t₁, ht₁, hfind₁⟩ := makeParents_ok hparents
  have hother : ∀ path, path ≠ m.path → t₁.find path = archived (done ++ [m]) path := by
    intro path hpath
    rw [hfind₁, h path, archived_append hpath]
  have hself : archived (done ++ [m]) m.path = some m.stored := archived_of_mem hnodup (by simp)
  have hown : t₁.find m.path = none ∨ t₁.find m.path = some .directory ∧ m.isdir = true := by
    have hnot : m.path ∉ ancestors m.path := fun ha => (mem_ancestors.mp ha).2.2 rfl
    rw [hfind₁, h m.path, if_neg hnot, Option.or_none]
    exact archived_own hnodup habove
  unfold extractMember
  rw [ht₁]
  simp only [bind, Except.bind]
  rcases hown with hn | ⟨hd, hdir⟩
  · rw [hn]
    refine ⟨_, rfl, ?_⟩
    intro path
    rw [Tree.find_add]
    by_cases hpath : path = m.path
    · rw [hpath, hn, hself]
      simp
    · rw [if_neg hpath, Option.or_none, hother path hpath]
  · have hstored : m.stored = .directory := by rw [Member.stored, if_pos hdir]
    rw [hd, hstored]
    refine ⟨_, rfl, ?_⟩
    intro path
    rw [Tree.find_change]
    by_cases hpath : path = m.path
    · rw [hpath, if_pos rfl, hd, hself, hstored]
      rfl
    · rw [if_neg hpath, hother path hpath]

theorem extract_run {l done : List Member} {t : Tree Text Stored} (h : Extracted t done)
    (hv : Verified (done ++ l)) : ∃ t', l.foldlM extractMember t = .ok t' ∧ Extracted t' (done ++ l) := by
  induction l generalizing done t with
  | nil => exact ⟨t, rfl, by rwa [List.append_nil]⟩
  | cons m rest ih =>
    have hsplit : done ++ m :: rest = done ++ [m] ++ rest := by simp
    rw [hsplit] at hv
    have hnodup : ((done ++ [m]).map Member.name).Nodup := by
      have := hv.nodup
      rw [List.map_append, List.nodup_append] at this
      exact this.1
    have hmem : ∀ x ∈ done, x ∈ done ++ [m] ++ rest := by
      intro x hx
      simp [hx]
    have hown : m ∈ done ++ [m] ++ rest := by simp
    obtain ⟨t₁, ht₁, h₁⟩ := extract_step h hnodup
      (fun x hx => hv.apart x (hmem x hx) m hown) (fun x hx => hv.apart m hown x (hmem x hx))
    rw [List.foldlM_cons, ht₁, hsplit]
    exact ih h₁ hv

/-- A verified backup can be extracted, to what it holds. -/
theorem extractAll_ok {members : List Member} (hv : Verified members) :
    ∃ t, extractAll members = .ok t ∧ Extracted t members := by
  have hempty : Extracted Tree.empty [] := fun _ => rfl
  exact extract_run hempty (by rwa [List.nil_append])

end Monutchee.Storage.Restore
