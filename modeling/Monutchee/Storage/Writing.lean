import Monutchee.Storage.Extraction

/-!
# Writing a backup (mnc-storage:182-227)

`backup` stops the services, puts the settings and the product file into a tar file with a
manifest of their sums, and verifies what it has written. Its own checks count the sizes that
`lstat` gives; verification counts the members with the manifest, and the whole file. The tar
writer takes a second name of a file for a hard link, which verification does not admit.
-/

namespace Monutchee.Storage.Writing
open Monutchee.Lib Monutchee.Lib.Act Monutchee.Lib.Files
open Monutchee.Storage.Boot (Error require_ok numeric? iterated hashable dictionary dictionary_ok item
  itemOr relativePath slashParts)
open Monutchee.Storage.Restore

/-! ### What a backup finds -/

/-- An object by its `lstat`, with the bytes of a file. No writer is at work: a file has as many
bytes as `st_size` says. -/
structure Source where
  kind : MemberKind
  mode : ℕ
  size : ℕ
  inode : ℕ × ℕ
  data : Bytes
  bits : mode < 0o10000
  still : kind = .regular → size = data.length
  deriving DecidableEq

def LOCK : Text := text ".lock"

/-- A name in a directory. -/
def FileName (name : Text) : Prop := name ≠ [] ∧ 47 ∉ name ∧ name ≠ text "." ∧ name ≠ text ".."

/-- The settings directory and what `rglob` lists in it: each path once, in directories. -/
structure Settings where
  root : Source
  isDirectory : root.kind = .directory
  entries : List (List Text × Source)
  nodup : (entries.map Prod.fst).Nodup
  named : ∀ e ∈ entries, e.1 ≠ [] ∧ ∀ name ∈ e.1, FileName name
  closed : ∀ e ∈ entries, ∀ q ∈ ancestors e.1, ∃ d ∈ entries, d.1 = q ∧ d.2.kind = .directory

/-- A path: `wrong` stands for a link to something or an object of another kind. -/
inductive Found (α : Type) where
  | missing
  | wrong
  | right (a : α)

/-- The legacy path is taken where the first does not exist. -/
def Found.or {α : Type} : Found α → Found α → Found α
  | .missing, legacy => legacy
  | found, _ => found

structure Station where
  destinationExists : Bool
  parentIsDir : Bool
  settings : Found Settings
  legacySettings : Found Settings
  product : Found Source
  legacyProduct : Found Source
  quiesceUnits : List Text
  /-- `systemctl stop` of a unit succeeds. -/
  stops : Text → Bool
  activeState : Text → Text
  /-- The lock file can be opened and locked. -/
  locks : Bool
  target : Json
  umask : ℕ

structure Archiver where
  reader : Reader
  /-- `json.dumps` in bytes -/
  dumps : List (Text × Json) → Bytes
  /-- `tarfile.open(.., 'w', format=PAX_FORMAT)` -/
  pack : List Member → Bytes

/-! ### backup -/

/-- `archive.add`: the second name of a file that was added becomes a link, which has no size. -/
def addMembers : List (ℕ × ℕ) → List (Text × Source) → List Member
  | _, [] => []
  | inodes, (name, s) :: rest =>
    match s.kind with
    | .regular =>
      if s.inode ∈ inodes then .plain name s.mode .other [] :: addMembers inodes rest
      else { Member.plain name s.mode .regular s.data with size := s.size } :: addMembers (s.inode :: inodes) rest
    | .directory => .plain name s.mode .directory [] :: addMembers inodes rest
    | .other => .plain name s.mode .other [] :: addMembers inodes rest

/-- `files` -/
def files (settings : Settings) (product : Source) : List (Text × Source) :=
  (text "settings", settings.root) :: (PRODUCT, product) ::
    (settings.entries.filter fun e => e.1.getLast? ≠ some LOCK).map fun e =>
      (text "settings/" ++ [47].intercalate e.1, e.2)

def regular (files : List (Text × Source)) : List (Text × Source) := files.filter fun f => f.2.kind = .regular

/-- `manifest['sha256']` -/
def sums (lib : Archiver) (files : List (Text × Source)) : List (Text × Json) :=
  (regular files).map fun f => (f.1, .str (lib.reader.sha256 f.2.data))

def manifest (lib : Archiver) (target : Json) (files : List (Text × Source)) : List (Text × Json) :=
  [(text "schema_version", .int 1), (text "target", target), (text "sha256", .obj (sums lib files))]

/-- The members of the archive, the manifest last. -/
def members (lib : Archiver) (target : Json) (umask : ℕ) (files : List (Text × Source)) : List Member :=
  addMembers [] files ++
    [.plain MANIFEST (0o666 - (0o666 &&& umask) : ℕ) .regular (lib.dumps (manifest lib target files))]

structure World where
  stopped : List Text := []
  destination : Option Bytes := none

abbrev Prog := Act World Error

def runtime (message : String) : Error := .runtime (text message)

def quiesce (st : Station) : Prog Unit := do
  Act.each (fun unit => do
    Act.require (st.stops unit) .other
    Act.modify fun w => { w with stopped := w.stopped ++ [unit] }) st.quiesceUnits
  Act.each (fun unit =>
    Act.require (st.activeState unit ∈ [text "inactive", text "failed"])
      (.runtime (text "service still active: " ++ unit))) st.quiesceUnits

def chosen (st : Station) : Prog (Settings × Source) :=
  match st.settings.or st.legacySettings, st.product.or st.legacyProduct with
  | .right settings, .right product =>
    if product.kind = .regular then pure (settings, product)
    else Act.raise (runtime "settings and productInfo.json must exist; refusing an incomplete backup")
  | _, _ => Act.raise (runtime "settings and productInfo.json must exist; refusing an incomplete backup")

def checkSource (f : Text × Source) : Prog Unit := do
  Act.require (f.2.kind = .regular ∨ f.2.kind = .directory) (runtime "settings contain links/special files")
  Act.require (f.2.mode % 0o10000 < 0o1000) (runtime "settings contain special permissions")

/-- After the lock every read and write succeeds; the errors of a full or failing destination are left
out. -/
def backup (lib : Archiver) (st : Station) : Prog Unit := do
  Act.require (!st.destinationExists) (runtime "backup destination already exists")
  Act.require st.parentIsDir (runtime "backup parent does not exist")
  let (settings, product) ← chosen st
  quiesce st
  Act.require st.locks .other
  let files := files settings product
  Act.require ((files.map fun f => f.2.size).sum < 16 * 1024 * 1024) (runtime "settings too large")
  Act.each checkSource files
  let archive := lib.pack (members lib st.target st.umask files)
  let _ ← lift (verifyArchive lib.reader ⟨true, archive⟩)
  Act.modify fun w => { w with destination := some archive }

/-! ### What the checks of a backup admit -/

/-- All checks of a backup itself pass, and the two documents are objects. -/
structure Admissible (lib : Archiver) (st : Station) (settings : Settings) (product : Source) : Prop where
  free : st.destinationExists = false
  parent : st.parentIsDir = true
  foundSettings : st.settings.or st.legacySettings = .right settings
  foundProduct : st.product.or st.legacyProduct = .right product
  isFile : product.kind = .regular
  stops : ∀ unit ∈ st.quiesceUnits, st.stops unit = true ∧ st.activeState unit ∈ [text "inactive", text "failed"]
  locks : st.locks = true
  size : ((files settings product).map fun f => f.2.size).sum < 16 * 1024 * 1024
  plain : ∀ f ∈ files settings product, f.2.kind = .regular ∨ f.2.kind = .directory
  mode : ∀ f ∈ files settings product, f.2.mode % 0o10000 < 0o1000
  active : ∃ s ps, ([text "active.json"], s) ∈ settings.entries ∧ s.kind = .regular ∧
    lib.reader.load s.data = .ok (.obj ps)
  document : ∃ ps, lib.reader.load product.data = .ok (.obj ps)

/-- No file has two names, the members take at most 16 MiB with the manifest, and the tar file at
most 32 MiB. -/
structure Fits (lib : Archiver) (target : Json) (umask : ℕ) (files : List (Text × Source)) : Prop where
  single : ((regular files).map fun f => f.2.inode).Nodup
  total : ((regular files).map fun f => f.2.size).sum +
    (lib.dumps (manifest lib target files)).length ≤ 16 * 1024 * 1024
  archive : (lib.pack (members lib target umask files)).length ≤ 32 * 1024 * 1024

/-- What the libraries promise: the manifest is read as it was written, and so are the members. -/
structure Faithful (lib : Archiver) (target : Json) (umask : ℕ) (files : List (Text × Source)) : Prop where
  loads : lib.reader.load (lib.dumps (manifest lib target files)) = .ok (.obj (manifest lib target files))
  reads : lib.reader.getmembers .plain (lib.pack (members lib target umask files)) = .ok (members lib target umask files)

/-! ### Names -/

variable {lib : Archiver} {settings : Settings} {product : Source}

theorem slashParts_entry {path : List Text} (hne : path ≠ []) (h : ∀ name ∈ path, FileName name) :
    slashParts (text "settings/" ++ [47].intercalate path) = text "settings" :: path := by
  have hsplit : ([47].intercalate path).splitOn 47 = path :=
    List.splitOn_intercalate 47 (fun name hn => (h name hn).2.1) hne
  unfold slashParts
  rw [show text "settings/" ++ [47].intercalate path = text "settings" ++ 47 :: [47].intercalate path from rfl,
    List.splitOn_append_cons_self_of_not_mem (by decide), hsplit]

theorem relativePath_entry {path : List Text} (hne : path ≠ []) (h : ∀ name ∈ path, FileName name) :
    relativePath (text "settings/" ++ [47].intercalate path) = true := by
  simp only [relativePath, slashParts_entry hne h, Bool.and_eq_true, List.all_eq_true, decide_eq_true_eq]
  refine ⟨⟨rfl, rfl⟩, ?_⟩
  intro part hp
  rcases List.mem_cons.mp hp with rfl | hp
  · decide
  · obtain ⟨h0, -, h1, h2⟩ := h part hp
    simp [h0, h1, h2]

/-- The names beside the settings. -/
theorem top_names : (∀ name ∈ [text "settings", PRODUCT, MANIFEST], relativePath name = true ∧
    slashParts name = [name] ∧ 47 ∉ name) ∧ [text "settings", PRODUCT, MANIFEST].Nodup := by
  decide

/-- The members' names lead to the paths below the two objects. -/
theorem files_cases {f : Text × Source} (hf : f ∈ files settings product) :
    f = (text "settings", settings.root) ∨ f = (PRODUCT, product) ∨
      ∃ e ∈ settings.entries, f = (text "settings/" ++ [47].intercalate e.1, e.2) := by
  rcases List.mem_cons.mp hf with h | hf
  · exact .inl h
  · rcases List.mem_cons.mp hf with h | hf
    · exact .inr (.inl h)
    · obtain ⟨e, he, rfl⟩ := List.mem_map.mp hf
      exact .inr (.inr ⟨e, (List.mem_filter.mp he).1, rfl⟩)

theorem files_relative : ∀ f ∈ files settings product, relativePath f.1 = true := by
  intro f hf
  rcases files_cases hf with rfl | rfl | ⟨e, he, rfl⟩
  · exact (top_names.1 _ (by simp)).1
  · exact (top_names.1 _ (by simp)).1
  · obtain ⟨hne, hnamed⟩ := settings.named e he
    exact relativePath_entry hne hnamed

theorem files_nodup : ((files settings product).map Prod.fst).Nodup := by
  have hlong : ∀ e ∈ settings.entries, 2 ≤ (slashParts (text "settings/" ++ [47].intercalate e.1)).length := by
    intro e he
    obtain ⟨hne, hnamed⟩ := settings.named e he
    rw [slashParts_entry hne hnamed, List.length_cons]
    have := List.length_pos_iff.mpr hne
    omega
  have hshort : ∀ name : Text, slashParts name = [name] → name ∉ ((settings.entries.filter fun e =>
      e.1.getLast? ≠ some LOCK).map fun e => (text "settings/" ++ [47].intercalate e.1, e.2)).map Prod.fst := by
    intro name hname hm
    rw [List.map_map] at hm
    obtain ⟨e, he, rfl⟩ := List.mem_map.mp hm
    have hlength := hlong e (List.mem_filter.mp he).1
    simp only [Function.comp_apply] at hname
    rw [hname, List.length_singleton] at hlength
    omega
  have hentries : (((settings.entries.filter fun e => e.1.getLast? ≠ some LOCK).map fun e =>
      (text "settings/" ++ [47].intercalate e.1, e.2)).map Prod.fst).Nodup := by
    rw [List.map_map]
    apply List.Nodup.map_on
    · intro a ha b hb hab
      have ha := (List.mem_filter.mp ha).1
      have hb := (List.mem_filter.mp hb).1
      have hparts := congrArg slashParts hab
      simp only [Function.comp_apply] at hparts
      rw [slashParts_entry (settings.named a ha).1 (settings.named a ha).2,
        slashParts_entry (settings.named b hb).1 (settings.named b hb).2] at hparts
      exact List.inj_on_of_nodup_map settings.nodup ha hb (List.cons.inj hparts).2
    · exact (List.Nodup.of_map _ settings.nodup).filter _
  unfold files
  rw [List.map_cons, List.map_cons, List.nodup_cons, List.nodup_cons, List.mem_cons, not_or]
  have htop := top_names.2
  simp only [List.nodup_cons, List.mem_cons, List.not_mem_nil, or_false, not_or] at htop
  exact ⟨⟨htop.1.1, hshort _ (top_names.1 _ (by simp)).2.1⟩, hshort _ (top_names.1 _ (by simp)).2.1, hentries⟩

theorem manifest_not_files : MANIFEST ∉ (files settings product).map Prod.fst := by
  intro hm
  obtain ⟨f, hf, hname⟩ := List.mem_map.mp hm
  have htop := top_names.2
  simp only [List.nodup_cons, List.mem_cons, List.not_mem_nil, or_false, not_or] at htop
  rcases files_cases hf with rfl | rfl | ⟨e, he, rfl⟩
  · exact htop.1.2 hname
  · exact htop.2.1 hname
  · have hparts := congrArg slashParts hname
    obtain ⟨hne, hnamed⟩ := settings.named e he
    simp only [slashParts_entry hne hnamed] at hparts
    rw [(top_names.1 MANIFEST (by simp)).2.1] at hparts
    exact hne (List.cons.inj hparts).2

/-! ### Members -/

/-- The member of an object whose inode is new. -/
def member (f : Text × Source) : Member :=
  { Member.plain f.1 f.2.mode f.2.kind (if f.2.kind = .regular then f.2.data else []) with
    size := if f.2.kind = .regular then f.2.size else 0 }

theorem addMembers_cons {inodes : List (ℕ × ℕ)} {f : Text × Source} {rest : List (Text × Source)} :
    addMembers inodes (f :: rest) =
      if f.2.kind = .regular ∧ f.2.inode ∈ inodes then
        .plain f.1 f.2.mode .other [] :: addMembers inodes rest
      else member f :: addMembers (if f.2.kind = .regular then f.2.inode :: inodes else inodes) rest := by
  obtain ⟨name, s⟩ := f
  rw [addMembers]
  cases hk : s.kind with
  | regular =>
    by_cases hi : s.inode ∈ inodes
    · simp [hi]
    · simp [hi, member, Member.plain, hk]
  | directory => simp [member, Member.plain, hk]
  | other => simp [member, Member.plain, hk]

/-- Without a second name every object has its member. -/
theorem addMembers_single {files : List (Text × Source)} :
    ∀ {inodes : List (ℕ × ℕ)}, ((regular files).map fun f => f.2.inode).Nodup →
      (∀ f ∈ regular files, f.2.inode ∉ inodes) → addMembers inodes files = files.map member := by
  induction files with
  | nil =>
    intro inodes _ _
    rfl
  | cons f rest ih =>
    intro inodes hnodup hnew
    rw [addMembers_cons, List.map_cons]
    by_cases hk : f.2.kind = .regular
    · have hreg : regular (f :: rest) = f :: regular rest := by simp [regular, hk]
      rw [hreg, List.map_cons, List.nodup_cons] at hnodup
      rw [hreg] at hnew
      rw [if_neg fun h => hnew f (List.mem_cons_self ..) h.2, if_pos hk, ih hnodup.2]
      intro g hg hmem
      rcases List.mem_cons.mp hmem with h | h
      · exact hnodup.1 (List.mem_map.mpr ⟨g, hg, h⟩)
      · exact hnew g (List.mem_cons_of_mem _ hg) h
    · have hreg : regular (f :: rest) = regular rest := by simp [regular, hk]
      rw [hreg] at hnodup hnew
      rw [if_neg fun h => hk h.1, if_neg hk, ih hnodup hnew]

/-- Where there is no link among the members, no file had a second name. -/
theorem addMembers_plain {files : List (Text × Source)} :
    ∀ {inodes : List (ℕ × ℕ)}, (∀ m ∈ addMembers inodes files, m.kind ≠ .other) →
      ((regular files).map fun f => f.2.inode).Nodup ∧ ∀ f ∈ regular files, f.2.inode ∉ inodes := by
  induction files with
  | nil =>
    intro inodes _
    simp [regular]
  | cons f rest ih =>
    intro inodes h
    rw [addMembers_cons] at h
    by_cases hk : f.2.kind = .regular
    · have hreg : regular (f :: rest) = f :: regular rest := by simp [regular, hk]
      by_cases hi : f.2.inode ∈ inodes
      · rw [if_pos ⟨hk, hi⟩] at h
        exact absurd rfl (h _ (List.mem_cons_self ..))
      · rw [if_neg fun h => hi h.2, if_pos hk] at h
        obtain ⟨hnodup, hnew⟩ := ih fun m hm => h m (List.mem_cons_of_mem _ hm)
        rw [hreg, List.map_cons, List.nodup_cons]
        refine ⟨⟨?_, hnodup⟩, ?_⟩
        · intro hmem
          obtain ⟨g, hg, he⟩ := List.mem_map.mp hmem
          exact hnew g hg (by rw [he]; exact List.mem_cons_self ..)
        · intro g hg
          rcases List.mem_cons.mp hg with rfl | hg
          · exact hi
          · exact fun hmem => hnew g hg (List.mem_cons_of_mem _ hmem)
    · have hreg : regular (f :: rest) = regular rest := by simp [regular, hk]
      rw [if_neg fun h => hk h.1, if_neg hk] at h
      rw [hreg]
      exact ih fun m hm => h m (List.mem_cons_of_mem _ hm)

/-! ### Verification of what was written -/

/-- The member of the manifest. -/
def manifestMember (lib : Archiver) (target : Json) (umask : ℕ) (files : List (Text × Source)) : Member :=
  .plain MANIFEST (0o666 - (0o666 &&& umask) : ℕ) .regular (lib.dumps (manifest lib target files))

/-- What the first loop of the verification asks of a member. -/
structure Passes (m : Member) : Prop where
  relative : relativePath m.name = true
  plain : m.isfile = true ∨ m.isdir = true
  name : m.name ∈ [text "settings", PRODUCT, MANIFEST] ∨ (text "settings/").isPrefixOf m.name = true
  mode : m.mode % 0o10000 < 0o1000

theorem collect_passes {ms : List Member} (h : ∀ m ∈ ms, Passes m) :
    ∀ {names : List Text}, (names ++ ms.map Member.name).Nodup → collect names ms = .ok (names ++ ms.map Member.name) := by
  induction ms with
  | nil =>
    intro names _
    rw [List.map_nil, List.append_nil]
    rfl
  | cons m rest ih =>
    intro names hnodup
    obtain ⟨hrelative, hplain, hname, hmode⟩ := h m (List.mem_cons_self ..)
    have hsplit : names ++ (m :: rest).map Member.name = names ++ [m.name] ++ rest.map Member.name := by simp
    rw [hsplit] at hnodup ⊢
    have hnew : m.name ∉ names := by
      intro hm
      have hboth := (List.nodup_append.mp (List.nodup_append.mp hnodup).1).2.2
      exact hboth m.name hm m.name (List.mem_singleton_self _) rfl
    have hwhere : (m.name ∈ [text "settings", PRODUCT, MANIFEST] || (text "settings/").isPrefixOf m.name) = true := by
      simpa using hname
    unfold collect
    rw [bind_of_ok (a := ()) (require_ok.mpr (by simp [hrelative, hnew])),
      bind_of_ok (a := ()) (require_ok.mpr (by simpa using hplain)), bind_of_ok (a := ()) (require_ok.mpr hwhere),
      bind_of_ok (a := ()) (require_ok.mpr (by simpa using hmode))]
    exact ih (fun x hx => h x (List.mem_cons_of_mem _ hx)) hnodup

/-- What lies above an object of the archive is a directory. -/
theorem above_directory {f g : Text × Source} (hf : f ∈ files settings product) (hg : g ∈ files settings product)
    (h : slashParts g.1 ∈ ancestors (slashParts f.1)) : g.2.kind = .directory := by
  obtain ⟨hbegins, hne, hne'⟩ := mem_ancestors.mp h
  have hshort : slashParts f.1 ≠ [f.1] := by
    intro hx
    rw [hx] at hbegins hne'
    rcases List.prefix_cons_iff.mp hbegins with h0 | ⟨rest, h1, hrest⟩
    · exact hne h0
    · rw [List.prefix_nil.mp hrest] at h1
      exact hne' h1
  rcases files_cases hf with rfl | rfl | ⟨e, he, rfl⟩
  · exact absurd (top_names.1 _ (by simp)).2.1 hshort
  · exact absurd (top_names.1 _ (by simp)).2.1 hshort
  · obtain ⟨hene, henamed⟩ := settings.named e he
    simp only [slashParts_entry hene henamed] at hbegins hne'
    rcases files_cases hg with rfl | rfl | ⟨d, hd, rfl⟩
    · exact settings.isDirectory
    · exfalso
      simp only [(top_names.1 PRODUCT (by simp)).2.1, List.cons_prefix_cons] at hbegins
      have htop := top_names.2
      simp only [List.nodup_cons, List.mem_cons, List.not_mem_nil, or_false, not_or] at htop
      exact htop.1.1 hbegins.1.symm
    · obtain ⟨hdne, hdnamed⟩ := settings.named d hd
      simp only [slashParts_entry hdne hdnamed, List.cons_prefix_cons] at hbegins hne'
      have hq : d.1 ∈ ancestors e.1 := mem_ancestors.mpr ⟨hbegins.2, hdne, fun h => hne' (by rw [h])⟩
      obtain ⟨d', hd', hpath, hkind⟩ := settings.closed e he d.1 hq
      rw [List.inj_on_of_nodup_map settings.nodup hd hd' hpath.symm]
      exact hkind

/-- The members are those of the objects, and the manifest. -/
theorem members_eq {target : Json} {umask : ℕ} {fs : List (Text × Source)}
    (h : ((regular fs).map fun f => f.2.inode).Nodup) :
    members lib target umask fs = fs.map member ++ [manifestMember lib target umask fs] := by
  unfold members
  rw [addMembers_single h fun _ _ => List.not_mem_nil]
  rfl

theorem members_nodup {target : Json} {umask : ℕ} :
    (((files settings product).map member ++ [manifestMember lib target umask (files settings product)]).map
      Member.name).Nodup := by
  rw [List.map_append, List.map_map, List.nodup_append]
  refine ⟨files_nodup, List.nodup_singleton _, ?_⟩
  intro a ha b hb hab
  rw [List.map_singleton, List.mem_singleton] at hb
  rw [hab, hb] at ha
  exact manifest_not_files ha

theorem members_pass {target : Json} {umask : ℕ}
    (hplain : ∀ f ∈ files settings product, f.2.kind = .regular ∨ f.2.kind = .directory)
    (hmode : ∀ f ∈ files settings product, f.2.mode % 0o10000 < 0o1000) :
    ∀ m ∈ (files settings product).map member ++ [manifestMember lib target umask (files settings product)],
      Passes m := by
  intro m hm
  rcases List.mem_append.mp hm with hm | hm
  · obtain ⟨f, hf, rfl⟩ := List.mem_map.mp hm
    refine ⟨files_relative f hf, ?_, ?_, ?_⟩
    · rcases hplain f hf with hk | hk
      · exact .inl (by simp [Member.isfile, member, Member.plain, hk])
      · exact .inr (by simp [Member.isdir, member, Member.plain, hk])
    · rcases files_cases hf with rfl | rfl | ⟨e, -, rfl⟩
      · exact .inl (by simp [member, Member.plain])
      · exact .inl (by simp [member, Member.plain])
      · exact .inr (List.isPrefixOf_iff_prefix.mpr (List.prefix_append _ _))
    · have hlow := hmode f hf
      show (f.2.mode : ℤ) % 0o10000 < 0o1000
      exact_mod_cast hlow
  · obtain rfl := List.mem_singleton.mp hm
    refine ⟨(top_names.1 MANIFEST (by simp)).1, .inl rfl, ?_, ?_⟩
    · exact .inl (List.mem_cons_of_mem _ (List.mem_cons_of_mem _ (List.mem_cons_self ..)))
    · have hle : 0o666 - (0o666 &&& umask) ≤ 0o666 := Nat.sub_le _ _
      show ((0o666 - (0o666 &&& umask) : ℕ) : ℤ) % 0o10000 < 0o1000
      omega

/-- The components of a member's name have no slash. -/
theorem files_slashless : ∀ f ∈ files settings product, ∀ part ∈ slashParts f.1, 47 ∉ part := by
  intro f hf part hp
  rcases files_cases hf with rfl | rfl | ⟨e, he, rfl⟩
  · rw [(top_names.1 _ (by simp)).2.1, List.mem_singleton] at hp
    rw [hp]
    exact (top_names.1 _ (by simp)).2.2
  · rw [(top_names.1 _ (by simp)).2.1, List.mem_singleton] at hp
    rw [hp]
    exact (top_names.1 _ (by simp)).2.2
  · obtain ⟨hne, hnamed⟩ := settings.named e he
    simp only [slashParts_entry hne hnamed, List.mem_cons] at hp
    rcases hp with rfl | hp
    · exact (top_names.1 _ (by simp)).2.2
    · exact (hnamed part hp).2.1

/-- Nothing of the settings and no product lies below the manifest. -/
theorem files_head : ∀ f ∈ files settings product, (slashParts f.1).head? ≠ some MANIFEST := by
  intro f hf hhead
  have htop := top_names.2
  simp only [List.nodup_cons, List.mem_cons, List.not_mem_nil, or_false, not_or] at htop
  rcases files_cases hf with rfl | rfl | ⟨e, he, rfl⟩
  · rw [(top_names.1 _ (by simp)).2.1] at hhead
    exact htop.1.2 (Option.some.inj hhead)
  · rw [(top_names.1 _ (by simp)).2.1] at hhead
    exact htop.2.1 (Option.some.inj hhead)
  · obtain ⟨hne, hnamed⟩ := settings.named e he
    rw [slashParts_entry hne hnamed] at hhead
    exact htop.1.2 (Option.some.inj hhead)

theorem parents_pass {target : Json} {umask : ℕ} :
    ∀ m ∈ (files settings product).map member ++ [manifestMember lib target umask (files settings product)],
      checkParents ((files settings product).map member ++
        [manifestMember lib target umask (files settings product)]) m = .ok () := by
  intro m hm
  unfold checkParents
  rw [forM_ok]
  intro parent hp
  obtain ⟨q, hq, rfl⟩ := List.mem_map.mp hp
  obtain ⟨hbegins, hne, hne'⟩ := mem_ancestors.mp hq
  split
  · rfl
  · rename_i other hother
    have hname : other.name = [47].intercalate q := by simpa using List.find?_some hother
    have hmem := List.mem_of_find?_eq_some hother
    rw [require_ok]
    rcases List.mem_append.mp hm with hm | hm
    · obtain ⟨f, hf, rfl⟩ := List.mem_map.mp hm
      have hsplit : slashParts ([47].intercalate q) = q :=
        List.splitOn_intercalate 47 (fun part hp => files_slashless f hf part (hbegins.subset hp)) hne
      rcases List.mem_append.mp hmem with hmem | hmem
      · obtain ⟨g, hg, rfl⟩ := List.mem_map.mp hmem
        have hgname : g.1 = [47].intercalate q := hname
        have habove := above_directory hf hg (by rw [hgname, hsplit]; exact hq)
        simp [Member.isdir, member, Member.plain, habove]
      · obtain rfl := List.mem_singleton.mp hmem
        have hmanifest : MANIFEST = [47].intercalate q := hname
        rw [← hmanifest, (top_names.1 MANIFEST (by simp)).2.1] at hsplit
        rw [← hsplit] at hbegins hne'
        obtain ⟨rest, hrest⟩ := hbegins
        have hhead : (slashParts f.1).head? = some MANIFEST := by
          rw [← show [MANIFEST] ++ rest = slashParts f.1 from hrest]
          rfl
        exact absurd hhead (files_head f hf)
    · obtain rfl := List.mem_singleton.mp hm
      have hpath : (manifestMember lib target umask (files settings product)).path = [MANIFEST] :=
        (top_names.1 MANIFEST (by simp)).2.1
      rw [hpath] at hbegins hne'
      rcases List.prefix_cons_iff.mp hbegins with h0 | ⟨rest, h1, hrest⟩
      · exact absurd h0 hne
      · rw [List.prefix_nil.mp hrest] at h1
        exact absurd h1 hne'

/-- The keys of the manifest are the names of the files. -/
theorem sums_names {target : Json} {umask : ℕ} :
    sameNames ((sums lib (files settings product)).map fun p => .str p.1)
      ((((files settings product).map member ++ [manifestMember lib target umask (files settings product)]).filter
        fun m => m.isfile && m.name ≠ MANIFEST).map Member.name) = true := by
  simp only [sameNames, Bool.and_eq_true, List.all_eq_true]
  constructor
  · intro v hv
    obtain ⟨p, hp, rfl⟩ := List.mem_map.mp hv
    obtain ⟨f, hf, rfl⟩ := List.mem_map.mp hp
    obtain ⟨hf, hk⟩ := List.mem_filter.mp hf
    have hk : f.2.kind = .regular := of_decide_eq_true hk
    have hne : f.1 ≠ MANIFEST := by
      intro hname
      apply @manifest_not_files settings product
      rw [← hname]
      exact List.mem_map_of_mem hf
    have hin : member f ∈ (files settings product).map member ++
        [manifestMember lib target umask (files settings product)] :=
      List.mem_append_left _ (List.mem_map_of_mem hf)
    apply decide_eq_true
    refine List.mem_map.mpr ⟨member f, List.mem_filter.mpr ⟨hin, ?_⟩, rfl⟩
    simp [Member.isfile, member, Member.plain, hk, hne]
  · intro name hname
    obtain ⟨m, hm, rfl⟩ := List.mem_map.mp hname
    obtain ⟨hm, hboth⟩ := List.mem_filter.mp hm
    simp only [Bool.and_eq_true, decide_eq_true_eq] at hboth
    rw [List.any_eq_true]
    rcases List.mem_append.mp hm with hm | hm
    · obtain ⟨f, hf, rfl⟩ := List.mem_map.mp hm
      have hk : f.2.kind = .regular := eq_of_beq hboth.1
      refine ⟨.str f.1, List.mem_map.mpr ⟨(f.1, .str (lib.reader.sha256 f.2.data)), ?_, rfl⟩, beq_self_eq_true _⟩
      exact List.mem_map_of_mem (List.mem_filter.mpr ⟨hf, decide_eq_true hk⟩)
    · obtain rfl := List.mem_singleton.mp hm
      exact absurd rfl hboth.2

theorem sums_pass {target : Json} {umask : ℕ} : ∀ entry ∈ sums lib (files settings product),
    checkSum lib.reader ((files settings product).map member ++
      [manifestMember lib target umask (files settings product)]) entry = .ok () := by
  intro entry he
  obtain ⟨f, hf, rfl⟩ := List.mem_map.mp he
  obtain ⟨hf, hk⟩ := List.mem_filter.mp hf
  have hk : f.2.kind = .regular := of_decide_eq_true hk
  have hdata : (member f).data = f.2.data := if_pos hk
  have hin : member f ∈ (files settings product).map member ++
      [manifestMember lib target umask (files settings product)] := List.mem_append_left _ (List.mem_map_of_mem hf)
  unfold checkSum
  rw [show f.1 = (member f).name from rfl, bind_of_ok (member_of_mem members_nodup hin), require_ok, hdata]
  exact beq_self_eq_true _

theorem sum_members {fs : List (Text × Source)} :
    ((fs.map member).map Member.size).sum = (((regular fs).map fun f => f.2.size).sum : ℕ) := by
  induction fs with
  | nil => rfl
  | cons f rest ih =>
    rw [List.map_cons, List.map_cons, List.sum_cons, ih]
    by_cases hk : f.2.kind = .regular
    · simp [regular, member, hk]
    · simp [regular, member, hk]

/-! ### The documents of the archive -/

section Documents
variable {target : Json} {umask : ℕ} {ms : List Member}
  (hms : (files settings product).map member ++ [manifestMember lib target umask (files settings product)] = ms)
include hms

theorem listed {f : Text × Source} (hf : f ∈ files settings product) : member f ∈ ms := by
  rw [← hms]
  exact List.mem_append_left _ (List.mem_map_of_mem hf)

theorem manifest_listed : manifestMember lib target umask (files settings product) ∈ ms := by
  rw [← hms]
  simp

theorem listed_nodup : (ms.map Member.name).Nodup := by
  rw [← hms]
  exact members_nodup

theorem load_manifest : loadMember lib.reader ms MANIFEST =
    lib.reader.load (manifestMember lib target umask (files settings product)).data := by
  unfold loadMember
  rw [show MANIFEST = (manifestMember lib target umask (files settings product)).name from rfl,
    bind_of_ok (member_of_mem (listed_nodup hms) (manifest_listed hms))]

theorem load_regular {f : Text × Source} (hf : f ∈ files settings product) (hk : f.2.kind = .regular) :
    loadMember lib.reader ms f.1 = lib.reader.load f.2.data := by
  unfold loadMember
  rw [show f.1 = (member f).name from rfl, bind_of_ok (member_of_mem (listed_nodup hms) (listed hms hf)),
    show (member f).data = f.2.data from if_pos hk]

theorem documents_listed {s : Source} (hproduct : product.kind = .regular) (hs : (ACTIVE, s) ∈ files settings product)
    (hk : s.kind = .regular) : ∀ name ∈ [MANIFEST, PRODUCT, ACTIVE], ∃ m ∈ ms, m.name = name ∧ m.isfile = true := by
  have hproductIn : ((PRODUCT, product) : Text × Source) ∈ files settings product :=
    List.mem_cons_of_mem _ (List.mem_cons_self ..)
  intro name hm
  simp only [List.mem_cons, List.not_mem_nil, or_false] at hm
  rcases hm with rfl | rfl | rfl
  · exact ⟨_, manifest_listed hms, rfl, rfl⟩
  · exact ⟨_, listed hms hproductIn, rfl, by simp [Member.isfile, member, Member.plain, hproduct]⟩
  · exact ⟨_, listed hms hs, rfl, by simp [Member.isfile, member, Member.plain, hk]⟩
end Documents

theorem active_listed {s : Source} (hs : ([text "active.json"], s) ∈ settings.entries) :
    ((ACTIVE, s) : Text × Source) ∈ files settings product := by
  have hname : text "settings/" ++ [47].intercalate [text "active.json"] = ACTIVE := rfl
  apply List.mem_cons_of_mem
  apply List.mem_cons_of_mem
  refine List.mem_map.mpr ⟨([text "active.json"], s), List.mem_filter.mpr ⟨hs, ?_⟩, by rw [hname]⟩
  exact decide_eq_true (show [text "active.json"].getLast? ≠ some LOCK by decide)

/-- Without a second name of a file and within the size, the members are verified. -/
theorem members_verify {st : Station} (hlib : Faithful lib st.target st.umask (files settings product))
    (ha : Admissible lib st settings product)
    (htotal : ((regular (files settings product)).map fun f => f.2.size).sum +
      (lib.dumps (manifest lib st.target (files settings product))).length ≤ 16 * 1024 * 1024) :
    verifyMembers lib.reader ((files settings product).map member ++
      [manifestMember lib st.target st.umask (files settings product)]) =
        .ok (manifest lib st.target (files settings product)) := by
  generalize hms : (files settings product).map member ++
    [manifestMember lib st.target st.umask (files settings product)] = ms
  have hnodup := listed_nodup hms
  have hpass : ∀ m ∈ ms, Passes m := by
    rw [← hms]
    exact members_pass ha.plain ha.mode
  have hcollect : collect [] ms = .ok ([] ++ ms.map Member.name) :=
    collect_passes hpass (by rw [List.nil_append]; exact hnodup)
  have hsize : (ms.map Member.size).sum ≤ 16 * 1024 * 1024 := by
    rw [← hms, List.map_append, List.sum_append, sum_members, List.map_singleton, List.sum_singleton]
    have hmanifest : (manifestMember lib st.target st.umask (files settings product)).size =
        (lib.dumps (manifest lib st.target (files settings product))).length := rfl
    omega
  -- the three documents
  obtain ⟨s, ps, hs, hsk, hactive⟩ := ha.active
  obtain ⟨qs, hproduct⟩ := ha.document
  have hactiveIn : ((ACTIVE, s) : Text × Source) ∈ files settings product := active_listed hs
  have hproductIn : ((PRODUCT, product) : Text × Source) ∈ files settings product :=
    List.mem_cons_of_mem _ (List.mem_cons_self ..)
  have hloadManifest : loadMember lib.reader ms MANIFEST = .ok (.obj (manifest lib st.target (files settings product))) :=
    (load_manifest hms).trans hlib.loads
  have hdocuments := documents_listed hms ha.isFile hactiveIn hsk
  have hfiles : ([MANIFEST, PRODUCT, ACTIVE].forM fun name => do
      let m ← Restore.member ms name
      Boot.require m.isfile (text "required backup document is not a file")) = .ok () := by
    rw [forM_ok]
    intro name hm
    obtain ⟨m, hmem, rfl, hfile⟩ := hdocuments name hm
    rw [bind_of_ok (member_of_mem hnodup hmem)]
    exact require_ok.mpr hfile
  have hparents : ms.forM (checkParents ms) = .ok () := by
    rw [forM_ok, ← hms]
    exact parents_pass
  have hsums : (sums lib (files settings product)).forM (checkSum lib.reader ms) = .ok () := by
    rw [forM_ok, ← hms]
    exact sums_pass
  have hsame := @sums_names lib settings product st.target st.umask
  rw [hms] at hsame
  have hversion : (numeric? (itemOr (manifest lib st.target (files settings product)) (text "schema_version") .null) ==
      some 1) = true := rfl
  have hitem : item (manifest lib st.target (files settings product)) (text "sha256") =
      .ok (.obj (sums lib (files settings product))) := rfl
  have hiterated : iterated (.obj (sums lib (files settings product))) =
      .ok ((sums lib (files settings product)).map fun p => .str p.1) := rfl
  have hdict : ∀ ps : List (Text × Json), isDict (.obj ps) = true := fun _ => rfl
  unfold verifyMembers
  rw [bind_of_ok hcollect, bind_of_ok (a := ()) (require_ok.mpr (decide_eq_true hsize)),
    bind_of_ok (a := ()) (require_ok.mpr (by
      rw [List.all_eq_true]
      intro name hm
      obtain ⟨m, hmem, rfl, -⟩ := hdocuments name hm
      exact decide_eq_true (List.mem_append_right _ (List.mem_map_of_mem hmem)))),
    bind_of_ok (a := ()) hfiles, bind_of_ok (a := ()) hparents, bind_of_ok hloadManifest,
    bind_of_ok (dictionary_ok.mpr rfl), bind_of_ok (a := ()) (require_ok.mpr hversion),
    bind_of_ok hitem, bind_of_ok hiterated,
    bind_of_ok (a := ()) (refuse_ok.mpr (by simp [hashable])),
    bind_of_ok (a := ()) (require_ok.mpr hsame), bind_of_ok (dictionary_ok.mpr rfl),
    bind_of_ok (a := ()) hsums, load_regular hms hactiveIn hsk, bind_of_ok hactive, bind_of_ok (a := ()) (require_ok.mpr (hdict ps)),
    load_regular hms hproductIn ha.isFile, bind_of_ok hproduct, bind_of_ok (a := ()) (require_ok.mpr (hdict qs))]
  rfl

/-- The archive is verified exactly if it fits. -/
theorem archive_verifies_iff {st : Station} (hlib : Faithful lib st.target st.umask (files settings product))
    (ha : Admissible lib st settings product) :
    (∃ document, verifyArchive lib.reader ⟨true, lib.pack (members lib st.target st.umask (files settings product))⟩ =
      .ok document) ↔ Fits lib st.target st.umask (files settings product) := by
  have hread := hlib.reads
  constructor
  · rintro ⟨document, h⟩
    unfold verifyArchive at h
    simp only [bind_ok, require_ok, hread] at h
    obtain ⟨-, -, -, hlength, ms, hms, hverify⟩ := h
    cases hms
    have hplain := (verifyMembers_ok hverify).plain
    have hkinds : ∀ m ∈ addMembers [] (files settings product), m.kind ≠ .other := by
      intro m hm hk
      rcases hplain m (List.mem_append_left _ hm) with h | h
      · simp [Member.isfile, hk] at h
      · simp [Member.isdir, hk] at h
    obtain ⟨hsingle, -⟩ := addMembers_plain hkinds
    have htotal := (verifyMembers_documents hverify).2.1
    rw [members_eq hsingle, List.map_append, List.sum_append, sum_members, List.map_singleton, List.sum_singleton]
      at htotal
    have hmanifest : (manifestMember lib st.target st.umask (files settings product)).size =
        (lib.dumps (manifest lib st.target (files settings product))).length := rfl
    exact ⟨hsingle, by omega, of_decide_eq_true hlength⟩
  · rintro ⟨hsingle, htotal, hlength⟩
    refine ⟨manifest lib st.target (files settings product), ?_⟩
    unfold verifyArchive
    rw [bind_of_ok (a := ()) (require_ok.mpr rfl), bind_of_ok (a := ()) (require_ok.mpr (decide_eq_true hlength)),
      bind_of_ok hread, members_eq hsingle]
    exact members_verify hlib ha htotal

/-! ### The run of a backup -/

theorem quiesce_runs {st : Station}
    (h : ∀ unit ∈ st.quiesceUnits, st.stops unit = true ∧ st.activeState unit ∈ [text "inactive", text "failed"])
    (w : World) : quiesce st w = (.ret (), { w with stopped := w.stopped ++ st.quiesceUnits }) := by
  have hstop : ∀ (units : List Text), (∀ unit ∈ units, st.stops unit = true) → ∀ w : World,
      (Act.each (fun unit => do
        Act.require (st.stops unit) .other
        Act.modify fun w : World => { w with stopped := w.stopped ++ [unit] }) units : Prog Unit) w =
        (.ret (), { w with stopped := w.stopped ++ units }) := by
    intro units
    induction units with
    | nil =>
      intro _ w
      rw [List.append_nil]
      rfl
    | cons unit units ih =>
      intro hunits w
      have hone : (do
          Act.require (st.stops unit) .other
          Act.modify fun w : World => { w with stopped := w.stopped ++ [unit] } : Prog Unit) w =
          (.ret (), { w with stopped := w.stopped ++ [unit] }) :=
        bind_of_ret (require_of_true (hunits unit (List.mem_cons_self ..)))
      have hrest := ih (fun x hx => hunits x (List.mem_cons_of_mem _ hx)) { w with stopped := w.stopped ++ [unit] }
      rw [List.append_assoc] at hrest
      exact (bind_of_ret hone).trans hrest
  have hstate : ∀ (units : List Text), (∀ unit ∈ units, st.activeState unit ∈ [text "inactive", text "failed"]) →
      ∀ w : World, (Act.each (fun unit => Act.require (st.activeState unit ∈ [text "inactive", text "failed"])
        (.runtime (text "service still active: " ++ unit))) units : Prog Unit) w = (.ret (), w) := by
    intro units
    induction units with
    | nil =>
      intro _ w
      rfl
    | cons unit units ih =>
      intro hunits w
      have hone := @require_of_true World Error (decide (st.activeState unit ∈ [text "inactive", text "failed"]))
        (.runtime (text "service still active: " ++ unit)) w (decide_eq_true (hunits unit (List.mem_cons_self ..)))
      exact (bind_of_ret hone).trans (ih (fun x hx => hunits x (List.mem_cons_of_mem _ hx)) w)
  exact (bind_of_ret (hstop _ (fun unit hu => (h unit hu).1) w)).trans (hstate _ (fun unit hu => (h unit hu).2) _)

theorem sources_pass {fs : List (Text × Source)} (hplain : ∀ f ∈ fs, f.2.kind = .regular ∨ f.2.kind = .directory)
    (hmode : ∀ f ∈ fs, f.2.mode % 0o10000 < 0o1000) (w : World) : Act.each checkSource fs w = (.ret (), w) := by
  induction fs with
  | nil => rfl
  | cons f fs ih =>
    have hone : checkSource f w = (.ret (), w) :=
      (bind_of_ret (require_of_true (decide_eq_true (hplain f (List.mem_cons_self ..))))).trans
        (require_of_true (decide_eq_true (hmode f (List.mem_cons_self ..))))
    exact (bind_of_ret hone).trans (ih (fun g hg => hplain g (List.mem_cons_of_mem _ hg))
      fun g hg => hmode g (List.mem_cons_of_mem _ hg))

/-- Once the checks of the backup itself have passed the services are stopped, and the verification
decides. -/
theorem backup_runs {st : Station} (ha : Admissible lib st settings product) (w : World) :
    backup lib st w = (do
      let _ ← lift (verifyArchive lib.reader ⟨true, lib.pack (members lib st.target st.umask (files settings product))⟩)
      Act.modify fun w => { w with destination := some (lib.pack (members lib st.target st.umask (files settings product))) }
      : Prog Unit) { w with stopped := w.stopped ++ st.quiesceUnits } := by
  have hchosen : chosen st w = (.ret (settings, product), w) := by
    unfold chosen
    rw [ha.foundSettings, ha.foundProduct]
    simp only [ha.isFile, if_true]
    rfl
  have hfree : (!st.destinationExists) = true := by rw [ha.free]; rfl
  unfold backup
  rw [bind_of_ret (require_of_true hfree), bind_of_ret (require_of_true ha.parent), bind_of_ret hchosen]
  simp only
  rw [bind_of_ret (quiesce_runs ha.stops w), bind_of_ret (require_of_true ha.locks),
    bind_of_ret (require_of_true (decide_eq_true ha.size)), bind_of_ret (sources_pass ha.plain ha.mode _)]

theorem backup_returns_iff {st : Station} (hlib : Faithful lib st.target st.umask (files settings product))
    (ha : Admissible lib st settings product) (w : World) :
    (backup lib st w).1 = .ret () ↔ Fits lib st.target st.umask (files settings product) := by
  rw [← archive_verifies_iff hlib ha, backup_runs ha w]
  cases hv : verifyArchive lib.reader ⟨true, lib.pack (members lib st.target st.umask (files settings product))⟩ with
  | ok document => exact ⟨fun _ => ⟨document, rfl⟩, fun _ => rfl⟩
  | error e =>
    constructor
    · intro h
      cases h
    · rintro ⟨document, h⟩
      cases h

/-- A backup that returns has put its tar file at the destination. -/
theorem backup_packs {st : Station} (ha : Admissible lib st settings product) {w w' : World}
    (h : backup lib st w = (.ret (), w')) :
    w'.destination = some (lib.pack (members lib st.target st.umask (files settings product))) := by
  rw [backup_runs ha] at h
  obtain ⟨document, w₁, hverify, hwrite⟩ := Act.bind_ret h
  have hw : _ = w' := congrArg Prod.snd hwrite
  rw [← hw]
  rfl

theorem backup_stops {st : Station} (ha : Admissible lib st settings product) (w : World) :
    (backup lib st w).2.stopped = w.stopped ++ st.quiesceUnits := by
  rw [backup_runs ha w]
  cases hv : verifyArchive lib.reader ⟨true, lib.pack (members lib st.target st.umask (files settings product))⟩ with
  | ok document => rfl
  | error e => rfl

/-- A backup whose own checks pass ends in a verified archive exactly if no file has a second name,
the files take at most 16 MiB with the manifest, and the tar file takes at most 32 MiB. Otherwise
it raises, with the services stopped. -/
theorem backup_verifies_iff (lib : Archiver) (st : Station) (settings : Settings) (product : Source)
    (hlib : Faithful lib st.target st.umask (files settings product)) (ha : Admissible lib st settings product)
    (w : World) :
    ((∃ document, verifyArchive lib.reader
        ⟨true, lib.pack (members lib st.target st.umask (files settings product))⟩ = .ok document) ↔
      Fits lib st.target st.umask (files settings product)) ∧
    ((backup lib st w).1 = .ret () ↔ Fits lib st.target st.umask (files settings product)) ∧
    (backup lib st w).2.stopped = w.stopped ++ st.quiesceUnits :=
  ⟨archive_verifies_iff hlib ha, backup_returns_iff hlib ha w, backup_stops ha w⟩

/-! ### A file with one name and with two -/

namespace Sample
open Monutchee.Storage.Restore.Sample (active activeDigest productDigest sumText manifestText packed packed_length)

def directory : Source := ⟨.directory, 0o755, 4096, (1, 2), [], by decide, by simp⟩

def productFile : Source := ⟨.regular, 0o644, 16, (1, 3), Restore.Sample.product, by decide, fun _ => rfl⟩

def activeFile : Source := ⟨.regular, 0o600, 13, (1, 4), active, by decide, fun _ => rfl⟩

/-- The settings with the document under these names. -/
def settingsOf (names : List Text) (hnodup : names.Nodup) (hnamed : ∀ name ∈ names, FileName name) : Settings where
  root := directory
  isDirectory := rfl
  entries := names.map fun name => ([name], activeFile)
  nodup := by
    rw [List.map_map]
    exact hnodup.map fun a b h => List.singleton_inj.mp h
  named := by
    intro e he
    obtain ⟨name, hname, rfl⟩ := List.mem_map.mp he
    simp [hnamed name hname]
  closed := by
    intro e he q hq
    obtain ⟨name, -, rfl⟩ := List.mem_map.mp he
    simp [ancestors] at hq

def single : Settings :=
  settingsOf [text "active.json"] (by decide) (by unfold FileName; decide)

/-- With a hard link to it. -/
def linked : Settings :=
  settingsOf [text "active.json", text "copy.json"] (by decide) (by unfold FileName; decide)

def station (settings : Settings) : Station where
  destinationExists := false
  parentIsDir := true
  settings := .right settings
  legacySettings := .missing
  product := .right productFile
  legacyProduct := .missing
  quiesceUnits := [text "mnc-system.service"]
  stops _ := true
  activeState _ := text "inactive"
  locks := true
  target := .str (text "test")
  umask := 0o022

/-- The libraries on these documents. -/
def archiver (json : Text) (document : List (Text × Json)) (ms : List Member) : Archiver where
  reader :=
    { Restore.Sample.reader with
      load := fun data => .ok (if data = active then .obj [(text "volume", .int 7)]
        else if data = Restore.Sample.product then .obj [(text "serial", .str (text "A1"))] else .obj document)
      getmembers := fun _ _ => .ok ms }
  dumps _ := Tar.bytesOf json
  pack := packed

def singleJson : Text := manifestText [sumText PRODUCT productDigest, sumText ACTIVE activeDigest]

def linkedJson : Text :=
  manifestText [sumText PRODUCT productDigest, sumText ACTIVE activeDigest, sumText (text "settings/copy.json") activeDigest]

/-- What they read is what was written. -/
def libraries (json : Text) (settings : Settings) : Archiver :=
  archiver json (manifest (archiver json [] []) (station settings).target (files settings productFile))
    (members (archiver json [] []) (station settings).target 0o022 (files settings productFile))

end Sample
open Sample

theorem documents_admissible {json : Text} {settings : Settings}
    (hactive : ([text "active.json"], activeFile) ∈ settings.entries)
    (hsize : ((files settings productFile).map fun f => f.2.size).sum < 16 * 1024 * 1024)
    (hplain : ∀ f ∈ files settings productFile, f.2.kind = .regular ∨ f.2.kind = .directory)
    (hmode : ∀ f ∈ files settings productFile, f.2.mode % 0o10000 < 0o1000) :
    Admissible (libraries json settings) (station settings) settings productFile :=
  ⟨rfl, rfl, rfl, rfl, rfl, fun _ _ => ⟨rfl, List.mem_cons_self ..⟩, rfl, hsize, hplain, hmode,
    ⟨activeFile, _, hactive, rfl, rfl⟩, ⟨_, rfl⟩⟩

theorem single_admissible : Admissible (libraries singleJson single) (station single) single productFile :=
  documents_admissible (List.mem_cons_self ..) (by decide) (by decide) (by decide)

theorem linked_admissible : Admissible (libraries linkedJson linked) (station linked) linked productFile :=
  documents_admissible (List.mem_cons_self ..) (by decide) (by decide) (by decide)

theorem single_faithful :
    Faithful (libraries singleJson single) (station single).target 0o022 (files single productFile) :=
  ⟨rfl, rfl⟩

theorem linked_faithful :
    Faithful (libraries linkedJson linked) (station linked).target 0o022 (files linked productFile) :=
  ⟨rfl, rfl⟩

set_option maxRecDepth 4000 in
theorem single_fits : Fits (libraries singleJson single) (station single).target 0o022 (files single productFile) :=
  ⟨by decide, by decide, packed_length (by decide)⟩

/-- One name: the archive is verified. -/
theorem backup_verifies_single :
    (backup (libraries singleJson single) (station single) {}).1 = .ret () :=
  (backup_verifies_iff _ (station single) single productFile single_faithful single_admissible {}).2.1.mpr single_fits

/-- Two names: the second is a link in the archive, and the backup fails with the service stopped. -/
theorem backup_fails_linked :
    Admissible (libraries linkedJson linked) (station linked) linked productFile ∧
    Faithful (libraries linkedJson linked) (station linked).target 0o022 (files linked productFile) ∧
    (¬ ∃ document, verifyArchive (libraries linkedJson linked).reader
      ⟨true, (libraries linkedJson linked).pack (members (libraries linkedJson linked) (station linked).target 0o022
        (files linked productFile))⟩ = .ok document) ∧
    (backup (libraries linkedJson linked) (station linked) {}).1 ≠ .ret () ∧
    (backup (libraries linkedJson linked) (station linked) {}).2.stopped = [text "mnc-system.service"] := by
  have hnot : ¬ Fits (libraries linkedJson linked) (station linked).target 0o022 (files linked productFile) := by
    rintro ⟨hsingle, -, -⟩
    exact absurd hsingle (by decide)
  refine ⟨linked_admissible, linked_faithful, ?_, ?_, backup_stops linked_admissible {}⟩
  · intro h
    exact hnot ((@archive_verifies_iff _ _ _ (station linked) linked_faithful linked_admissible).mp h)
  · intro h
    exact hnot ((@backup_returns_iff _ _ _ (station linked) linked_faithful linked_admissible {}).mp h)

end Monutchee.Storage.Writing
