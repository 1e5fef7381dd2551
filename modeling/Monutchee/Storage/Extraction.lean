import Monutchee.Storage.Repeat
import Mathlib.Algebra.Order.BigOperators.Group.List
import Mathlib.Algebra.Order.Group.Nat
import Mathlib.Data.List.Lex

/-!
# Extracting a verified backup (mnc-storage:47-49, 146-179, 360-364)

`extractall` is followed below the root of the file system, where a member's name is joined to
the directory it is extracted into and resolved: an absolute name or a `..` would lead out of it.
Files are created with the mode that the umask leaves, directories with a mode of their own, and
the owners, modes and times of the archive are set afterwards. The file system may refuse to create
an object (a name it cannot hold, no room left), and Python does not convert every value of a header
for the call; either ends the extraction.

`restore` opens the archive anew, in a mode that tries the compressed formats first. A plain archive
that is also a compressed one is verified as the first and extracted as the second. The headers of
directories may have negative sizes, which verification counts.
-/

namespace Monutchee.Storage.Restore
open Monutchee.Lib Monutchee.Lib.Act Monutchee.Lib.Files
open Monutchee.Storage.Boot (Error require_ok numeric? dictionary dictionary_ok item itemOr relativePath
  slashParts)

/-! ### What verification admits -/

/-- The first component is one of the three names, and only `settings` has something below it. -/
def Allowed (path : List Text) : Prop :=
  path.head? = some (text "settings") ∨ path = [PRODUCT] ∨ path = [MANIFEST]

/-- What the first loop asks of a member. -/
structure Admitted (m : Member) : Prop where
  relative : relativePath m.name = true
  plain : m.isfile = true ∨ m.isdir = true
  allowed : Allowed m.path
  mode : m.mode % 0o10000 < 0o1000

theorem collect_admits {names : List Text} {members : List Member} {all : List Text}
    (h : collect names members = .ok all) : ∀ m ∈ members, Admitted m := by
  induction members generalizing names with
  | nil => simp
  | cons m rest ih =>
    simp only [collect, bind_ok, require_ok, Bool.and_eq_true, Bool.or_eq_true, decide_eq_true_eq] at h
    obtain ⟨-, ⟨hrelative, -⟩, -, hplain, -, hname, -, hmode, hrest⟩ := h
    intro x hx
    rcases List.mem_cons.mp hx with rfl | hx
    · refine ⟨hrelative, hplain, ?_, hmode⟩
      unfold Allowed Member.path slashParts
      rcases hname with hname | hbelow
      · simp only [List.mem_cons, List.not_mem_nil, or_false] at hname
        rcases hname with h | h | h
        · rw [h]
          exact .inl rfl
        · rw [h]
          exact .inr (.inl rfl)
        · rw [h]
          exact .inr (.inr rfl)
      · obtain ⟨rest, hrest⟩ := List.isPrefixOf_iff_prefix.mp hbelow
        rw [← hrest, show text "settings/" ++ rest = text "settings" ++ 47 :: rest from rfl,
          List.splitOn_append_cons_self_of_not_mem (by decide)]
        exact .inl rfl
    · exact ih hrest x hx

theorem Allowed.ancestor {q path : List Text} (h : Allowed path) (hq : q ∈ ancestors path) : Allowed q := by
  obtain ⟨⟨rest, rfl⟩, hne, hne'⟩ := mem_ancestors.mp hq
  cases q with
  | nil => exact absurd rfl hne
  | cons a q =>
    rcases h with h | h | h
    · exact .inl h
    · exfalso
      apply hne'
      obtain ⟨rfl, hnil⟩ := List.cons.inj h
      rw [(List.append_eq_nil_iff.mp hnil).1, (List.append_eq_nil_iff.mp hnil).2]
      rfl
    · exfalso
      apply hne'
      obtain ⟨rfl, hnil⟩ := List.cons.inj h
      rw [(List.append_eq_nil_iff.mp hnil).1, (List.append_eq_nil_iff.mp hnil).2]
      rfl

/-- What passes the checks of the members. -/
structure Orderly (members : List Member) : Prop where
  admitted : ∀ m ∈ members, Admitted m
  nodup : (members.map Member.name).Nodup
  apart : ∀ m ∈ members, ∀ m' ∈ members, m.path ∈ ancestors m'.path → m.isdir = true

/-- The files that a manifest lists. -/
def dataFiles (members : List Member) : List Member := members.filter fun m => m.isfile && m.name ≠ MANIFEST

/-- The files are those of the list, with its sums, and the two documents are objects. -/
structure Documents (lib : Reader) (members : List Member) (sums : List (Text × Json))
    (bytes : Member → Option Bytes) : Prop where
  complete : ∀ name, name ∈ sums.map Prod.fst ↔ name ∈ (dataFiles members).map Member.name
  listed : ∀ m ∈ dataFiles members, ∃ data, bytes m = some data ∧ sums.lookup m.name = some (.str (lib.sha256 data))
  objects : ∀ name ∈ [PRODUCT, ACTIVE], ∃ m ∈ dataFiles members, m.name = name ∧
    ∃ data ps, bytes m = some data ∧ lib.load data = .ok (.obj ps)

theorem member_of_mem {members : List Member} (hnodup : (members.map Member.name).Nodup) {m : Member}
    (h : m ∈ members) : member members m.name = .ok m := by
  unfold member
  rw [find?_of_mem hnodup h]

theorem loadMember_ok {lib : Reader} {members : List Member} (hv : Verified members) {name : Text}
    (hname : name ∈ [MANIFEST, PRODUCT, ACTIVE]) {v : Json} (h : loadMember lib members name = .ok v) :
    ∃ m ∈ members, m.name = name ∧ m.isfile = true ∧ lib.load m.data = .ok v := by
  obtain ⟨m, hm, rfl, hfile⟩ := hv.documents name hname
  unfold loadMember at h
  simp only [bind_ok, member_of_mem hv.nodup hm] at h
  obtain ⟨m', hm', hload⟩ := h
  cases hm'
  exact ⟨m, hm, rfl, hfile, hload⟩

theorem isDict_iff {v : Json} : isDict v = true ↔ ∃ ps, v = .obj ps := by
  cases v <;> simp [isDict]

theorem mem_dataFiles {members : List Member} {m : Member} :
    m ∈ dataFiles members ↔ m ∈ members ∧ m.isfile = true ∧ m.name ≠ MANIFEST := by
  simp [dataFiles, List.mem_filter]

/-- The list has the names of the files. -/
theorem sameNames_iff {sums : List (Text × Json)} {names : List Text}
    (h : sameNames (sums.map fun p => .str p.1) names = true) (name : Text) :
    name ∈ sums.map Prod.fst ↔ name ∈ names := by
  simp only [sameNames, Bool.and_eq_true, List.all_eq_true] at h
  constructor
  · intro hname
    obtain ⟨p, hp, rfl⟩ := List.mem_map.mp hname
    exact of_decide_eq_true (h.1 (.str p.1) (List.mem_map_of_mem hp))
  · intro hname
    obtain ⟨v, hv, he⟩ := List.any_eq_true.mp (h.2 name hname)
    obtain ⟨p, hp, rfl⟩ := List.mem_map.mp hv
    have hpn : p.1 = name := by simpa using he
    exact List.mem_map.mpr ⟨p, hp, hpn⟩

/-- Each file but the manifest is listed, with the sum of its bytes. -/
theorem listed_sum {lib : Reader} {members : List Member} {sums : List (Text × Json)} (hv : Verified members)
    (hnames : ∀ name, name ∈ sums.map Prod.fst ↔ name ∈ (dataFiles members).map Member.name)
    (hsums : ∀ entry ∈ sums, checkSum lib members entry = .ok ()) {m : Member} (hm : m ∈ dataFiles members) :
    sums.lookup m.name = some (.str (lib.sha256 m.data)) := by
  obtain ⟨p, hp, hpname⟩ := List.mem_map.mp ((hnames m.name).mpr (List.mem_map_of_mem hm))
  have hsome : (sums.lookup m.name).isSome = true :=
    List.lookup_isSome_iff.mpr ⟨p, hp, by simp [hpname]⟩
  obtain ⟨w, hw⟩ := Option.isSome_iff_exists.mp hsome
  have hround := hsums (m.name, w) (mem_of_lookup hw)
  unfold checkSum at hround
  simp only [bind_ok, member_of_mem hv.nodup (mem_dataFiles.mp hm).1, require_ok] at hround
  obtain ⟨m', hm', hsum⟩ := hround
  cases hm'
  rw [hw]
  cases w with
  | str s => rw [eq_of_beq hsum]
  | _ => cases hsum

theorem verifyMembers_documents {lib : Reader} {members : List Member} {manifest : List (Text × Json)}
    (h : verifyMembers lib members = .ok manifest) :
    Orderly members ∧ (members.map Member.size).sum ≤ 16 * 1024 * 1024 ∧
      ∃ sums, manifest.lookup (text "sha256") = some (.obj sums) ∧
        Documents lib members sums fun m => some m.data := by
  have hv := verifyMembers_ok h
  unfold verifyMembers at h
  simp only [bind_ok, require_ok, dictionary_ok, refuse_ok, pure_ok, decide_eq_true_eq, isDict_iff] at h
  obtain ⟨names, hcollect, ⟨⟩, hsize, ⟨⟩, -, ⟨⟩, -, ⟨⟩, -, document, hdocument, manifest', rfl, ⟨⟩, -, value, hvalue,
    listed, hlisted, ⟨⟩, -, ⟨⟩, hsame, sums, rfl, ⟨⟩, hsums, active, hactive, ⟨⟩, ⟨ps, rfl⟩, product, hproduct,
    ⟨⟩, ⟨qs, rfl⟩, rfl⟩ := h
  have hlookup : manifest'.lookup (text "sha256") = some (.obj sums) := by
    unfold item at hvalue
    split at hvalue
    · rename_i v hv
      cases hvalue
      exact hv
    · cases hvalue
  cases hlisted
  obtain ⟨m, hm, hname, hfile, hload⟩ := loadMember_ok hv (by simp) hactive
  obtain ⟨m', hm', hname', hfile', hload'⟩ := loadMember_ok hv (by simp) hproduct
  have hdata : ∀ x ∈ members, x.isfile = true → x.name ∈ [PRODUCT, ACTIVE] → x ∈ dataFiles members := by
    intro x hx hf hn
    refine mem_dataFiles.mpr ⟨hx, hf, ?_⟩
    intro he
    rw [he] at hn
    exact absurd hn (by decide)
  have hnames := sameNames_iff hsame
  refine ⟨⟨collect_admits hcollect, hv.nodup, hv.apart⟩, hsize, sums, hlookup,
    ⟨hnames, fun m hm => ⟨m.data, rfl, listed_sum hv hnames (forM_ok.mp hsums) hm⟩, ?_⟩⟩
  intro name hmem
  rcases List.mem_cons.mp hmem with rfl | hmem
  · exact ⟨m', hdata m' hm' hfile' (by simp [hname']), hname', m'.data, qs, rfl, hload'⟩
  · rw [List.mem_singleton.mp hmem]
    exact ⟨m, hdata m hm hfile (by simp [hname]), hname, m.data, ps, rfl, hload⟩

theorem verifyArchive_members {lib : Reader} {file : BackupFile} {manifest : List (Text × Json)} {members : List Member}
    (h : verifyArchive lib file = .ok manifest) (hmembers : lib.getmembers .plain file.content = .ok members) :
    verifyMembers lib members = .ok manifest := by
  unfold verifyArchive at h
  simp only [bind_ok, require_ok, hmembers, Except.ok.injEq, exists_eq_left'] at h
  obtain ⟨-, -, -, -, hverify⟩ := h
  exact hverify

/-! ### Extraction into a directory -/

/-- A file or a directory with the twelve bits of its mode. -/
structure Object where
  stored : Stored
  mode : ℕ
  deriving DecidableEq

/-- The objects of a file system, by their paths from its root. -/
abbrev Volume := Tree Text Object

/-- `takes` says which paths the file system can create an object at. -/
structure Medium where
  umask : ℕ
  takes : List Text → Bool

abbrev Extraction := Act Volume Error

/-- `os.path.join` of a directory and a name, resolved where nothing on the way is a link. -/
def resolve (base : List Text) (name : Text) : List Text :=
  (slashParts name).foldl
    (fun path part => if part = [] ∨ part = text "." then path else if part = text ".." then path.dropLast
      else path ++ [part])
    (if (text "/").isPrefixOf name then [] else base)

/-- `mode & ~umask` -/
def Medium.creation (s : Medium) (mode : ℕ) : ℕ := mode - (mode &&& s.umask)

/-- A path without a null byte. -/
def named (path : List Text) : Bool := path.all fun part => !part.contains 0

def create (s : Medium) (path : List Text) (o : Object) : Extraction Unit := do
  Act.require (s.takes path) .other
  Act.modify fun v => v.add path o

/-- `os.mkdir`, which lets an existing directory pass. -/
def makedir (s : Medium) (mode : ℕ) (path : List Text) : Extraction Unit := do
  Act.require (named path) .other
  let found ← Act.gets fun v => v.find path
  match found with
  | some o => Act.require (o.stored = .directory) .other
  | none => create s path ⟨.directory, s.creation mode⟩

/-- `open(path, "wb")`: an existing file is emptied. -/
def openFile (s : Medium) (path : List Text) : Extraction Unit := do
  Act.require (named path) .other
  let found ← Act.gets fun v => v.find path
  match found with
  | some o => do
    Act.require (o.stored ≠ .directory) .other
    Act.modify fun v => v.change path fun o => { o with stored := .file [] }
  | none => create s path ⟨.file [], s.creation 0o666⟩

/-- `makefile`; what a copy that fails has written is left out. -/
def makefile (s : Medium) (path : List Text) (written : Option Bytes) : Extraction Unit := do
  openFile s path
  match written with
  | some data => Act.modify fun v => v.change path fun o => { o with stored := .file data }
  | none => Act.raise .other

def Member.permissions (m : Member) : ℕ := (m.mode % 0o10000).toNat

/-- `os.chown`; owners are not followed. -/
def chown (m : Member) : Extraction Unit := Act.require m.owned .other

def chmod (base : List Text) (m : Member) : Extraction Unit := do
  Act.require (-2 ^ 31 ≤ m.mode ∧ m.mode < 2 ^ 31) .other
  Act.modify fun v => v.change (resolve base m.name) fun o => { o with mode := m.permissions }

/-- `os.utime`; times are not followed. -/
def utime (m : Member) : Extraction Unit := Act.require m.timed .other

/-- `_extract_member` for files and directories; what is set of a directory is set at the end. -/
def extractOne (s : Medium) (base : List Text) (m : Member) : Extraction Unit := do
  let path := resolve base m.name
  Act.each (makedir s 0o777) (ancestors path)
  if m.isdir then makedir s 0o700 path
  else do
    makefile s path m.written
    chown m
    chmod base m
    utime m

def setDirectory (base : List Text) (m : Member) : Extraction Unit := do
  chown m
  utime m
  chmod base m

/-- `extractall`: the directories get their owners, times and modes in the reverse order of their
names. -/
def extractall (s : Medium) (base : List Text) (members : List Member) : Extraction Unit := do
  Act.each (extractOne s base) members
  Act.each (setDirectory base) ((members.filter Member.isdir).mergeSort fun a b => decide (b.name ≤ a.name))

/-! ### Below the directory -/

theorem resolve_relative {base : List Text} {name : Text} (h : relativePath name = true) :
    resolve base name = base ++ slashParts name := by
  simp only [relativePath, Bool.and_eq_true, Bool.not_eq_true', List.all_eq_true, decide_eq_true_eq] at h
  obtain ⟨⟨-, hroot⟩, hparts⟩ := h
  unfold resolve
  rw [hroot]
  simp only [Bool.false_eq_true, if_false]
  generalize slashParts name = parts at hparts
  induction parts generalizing base with
  | nil => simp
  | cons part parts ih =>
    have hpart := hparts part (List.mem_cons_self ..)
    simp only [List.mem_cons, List.not_mem_nil, or_false, not_or] at hpart
    rw [List.foldl_cons, if_neg (by simp [hpart]), if_neg hpart.2.2, ih fun q hq => hparts q (List.mem_cons_of_mem _ hq),
      List.append_assoc, List.singleton_append]

/-- A directory with nothing in it. -/
structure EmptyDirectory (v : Volume) (base : List Text) : Prop where
  named : named base = true
  above : ∀ p, p ≠ [] → p <+: base → ∃ o, v.find p = some o ∧ o.stored = .directory
  empty : ∀ q, q ≠ [] → v.find (base ++ q) = none

/-- Nothing has changed outside the directory, and what is in it has one of the names and no special
permission. -/
structure Contained (base : List Text) (v₀ v : Volume) : Prop where
  outside : ∀ p, (∀ q, q ≠ [] → p ≠ base ++ q) → v.find p = v₀.find p
  inside : ∀ q o, q ≠ [] → v.find (base ++ q) = some o → Allowed q ∧ o.mode < 0o1000

variable {base : List Text} {v₀ v : Volume} {s : Medium}

theorem creation_lt {mode : ℕ} (h : mode < 0o1000) : s.creation mode < 0o1000 :=
  Nat.lt_of_le_of_lt (Nat.sub_le _ _) h

theorem Contained.add (h : Contained base v₀ v) {q : List Text} {o : Object} (hq : q ≠ []) (ha : Allowed q)
    (ho : o.mode < 0o1000) : Contained base v₀ (v.add (base ++ q) o) := by
  refine ⟨?_, ?_⟩
  · intro p hp
    rw [Tree.find_add, if_neg (hp q hq), Option.or_none, h.outside p hp]
  · intro r x hr hx
    rw [Tree.find_add] at hx
    cases hv : v.find (base ++ r) with
    | some y =>
      rw [hv] at hx
      cases hx
      exact h.inside r _ hr hv
    | none =>
      rw [hv, Option.none_or] at hx
      split at hx
      · rename_i he
        rw [List.append_cancel_left he]
        cases hx
        exact ⟨ha, ho⟩
      · cases hx

theorem Contained.change (h : Contained base v₀ v) {q : List Text} {f : Object → Object} (hq : q ≠ [])
    (hf : ∀ o, o.mode < 0o1000 → (f o).mode < 0o1000) : Contained base v₀ (v.change (base ++ q) f) := by
  refine ⟨?_, ?_⟩
  · intro p hp
    rw [Tree.find_change, if_neg (hp q hq), h.outside p hp]
  · intro r x hr hx
    rw [Tree.find_change] at hx
    split at hx
    · obtain ⟨y, hy, rfl⟩ := Option.map_eq_some_iff.mp hx
      obtain ⟨hallowed, hmode⟩ := h.inside r y hr hy
      exact ⟨hallowed, hf y hmode⟩
    · exact h.inside r x hr hx

/-- A directory above a path in the directory is one above the directory, the directory itself, or
one in it. -/
theorem ancestor_cases {path p : List Text} (h : p ∈ ancestors (base ++ path)) :
    p <+: base ∧ p ≠ [] ∨ ∃ q ∈ ancestors path, p = base ++ q := by
  obtain ⟨hp, hne, hne'⟩ := mem_ancestors.mp h
  rcases List.prefix_or_prefix_of_prefix hp (List.prefix_append base path) with hbase | ⟨q, rfl⟩
  · exact .inl ⟨hbase, hne⟩
  · by_cases hq : q = []
    · subst hq
      rw [List.append_nil] at hne ⊢
      exact .inl ⟨List.prefix_refl base, hne⟩
    · refine .inr ⟨q, mem_ancestors.mpr ⟨?_, hq, ?_⟩, rfl⟩
      · exact (List.prefix_append_right_inj base).mp hp
      · rintro rfl
        exact hne' rfl

theorem append_mem_ancestors {path q : List Text} (hq : q ≠ []) :
    base ++ q ∈ ancestors (base ++ path) ↔ q ∈ ancestors path := by
  rw [mem_ancestors, mem_ancestors, List.prefix_append_right_inj]
  constructor
  · rintro ⟨h, -, hne⟩
    exact ⟨h, hq, fun he => hne (by rw [he])⟩
  · rintro ⟨h, -, hne⟩
    exact ⟨h, by simp [hq], fun he => hne (List.append_cancel_left he)⟩

/-! ### What a call takes -/

theorem named_append {p q : List Text} : named (p ++ q) = (named p && named q) := List.all_append

theorem named_ancestor {p q : List Text} (h : named p = true) (hq : q ∈ ancestors p) : named q = true := by
  obtain ⟨⟨rest, rfl⟩, -, -⟩ := mem_ancestors.mp hq
  rw [named_append, Bool.and_eq_true] at h
  exact h.1

theorem mem_intercalate {x : ℕ} (hx : x ≠ 47) {l : List Text} : x ∈ [47].intercalate l ↔ ∃ part ∈ l, x ∈ part := by
  induction l with
  | nil => simp
  | cons part rest ih =>
    cases rest with
    | nil => simp
    | cons next rest =>
      rw [List.intercalate_cons_cons, List.mem_append, List.mem_append, ih]
      simp [hx]

theorem named_path {m : Member} : named m.path = true ↔ 0 ∉ m.name := by
  rw [← joined_path m, mem_intercalate (by decide)]
  simp [named]

/-- The attributes that Python can hand to the system. -/
structure Member.Attributes (m : Member) : Prop where
  owned : m.owned = true
  mode : -2 ^ 31 ≤ m.mode ∧ m.mode < 2 ^ 31
  timed : m.timed = true

/-- A member that no call of the extraction refuses. -/
structure Member.Settable (m : Member) : Prop where
  named : 0 ∉ m.name
  copied : m.isfile = true → m.written ≠ none
  attributes : m.Attributes

/-- What is set of an object changes its mode, or stops at a value that cannot be converted. -/
theorem setDirectory_ends {m : Member} : Ends (setDirectory base m) v
    (fun _ w => w = v.change (resolve base m.name) (fun o => { o with mode := m.permissions }) ∧ m.Attributes)
    fun _ w => w = v ∧ ¬ m.Attributes := by
  unfold setDirectory chown utime chmod
  apply Ends.require
  · intro howned
    apply Ends.require
    · intro htimed
      apply Ends.require
      · intro hmode
        exact Ends.ret rfl ⟨rfl, howned, of_decide_eq_true hmode, htimed⟩
      · intro hmode
        exact ⟨rfl, fun h => of_decide_eq_false hmode h.mode⟩
    · intro htimed
      exact ⟨rfl, fun h => by simp [h.timed] at htimed⟩
  · intro howned
    exact ⟨rfl, fun h => by simp [h.owned] at howned⟩

theorem setFile_ends {m : Member} : Ends (chown m >>= fun _ => chmod base m >>= fun _ => utime m) v
    (fun _ w => w = v.change (resolve base m.name) (fun o => { o with mode := m.permissions }) ∧ m.Attributes)
    fun _ w => (w = v ∨ w = v.change (resolve base m.name) fun o => { o with mode := m.permissions }) ∧ ¬ m.Attributes := by
  unfold chown utime chmod
  apply Ends.require
  · intro howned
    rw [Act.bind_assoc]
    apply Ends.require
    · intro hmode
      apply Ends.modify
      unfold Ends
      cases htimed : m.timed with
      | true => exact Ends.ret (require_of_true rfl) ⟨rfl, howned, of_decide_eq_true hmode, htimed⟩
      | false => exact Ends.raised (require_of_false rfl) ⟨.inr rfl, fun h => by simp [h.timed] at htimed⟩
    · intro hmode
      exact ⟨.inl rfl, fun h => of_decide_eq_false hmode h.mode⟩
  · intro howned
    exact ⟨.inl rfl, fun h => by simp [h.owned] at howned⟩

/-- The file system does not take a path, or Python does not. -/
def Medium.Refuses (s : Medium) (path : List Text) : Prop := s.takes path = false ∨ named path = false

theorem create_ends {path : List Text} {o : Object} :
    Ends (create s path o) v (fun _ w => w = v.add path o) fun _ w => w = v ∧ s.Refuses path := by
  unfold create
  cases h : s.takes path with
  | true => exact Ends.ret (bind_of_ret (require_of_true rfl)) rfl
  | false => exact Ends.raised (bind_of_raise (require_of_false rfl)) ⟨rfl, .inl h⟩

theorem add_of_some {path : List Text} {o x : Object} (h : v.find path = some x) : v.add path o = v := by
  unfold Tree.add
  rw [dif_neg (by rw [h]; simp)]

/-- A directory is made where there is none. -/
theorem makedir_ends {mode : ℕ} {path : List Text} (h : ∀ o, v.find path = some o → o.stored = .directory) :
    Ends (makedir s mode path) v (fun _ w => w = v.add path ⟨.directory, s.creation mode⟩ ∧ named path = true)
      fun _ w => w = v ∧ s.Refuses path := by
  unfold makedir
  apply Ends.require
  · intro hnamed
    apply Ends.get
    cases hfind : v.find path with
    | some o =>
      have hdir := h o hfind
      exact Ends.ret (require_of_true (by simpa using hdir)) ⟨(add_of_some hfind).symm, hnamed⟩
    | none => exact create_ends.mono (fun _ _ hw => ⟨hw, hnamed⟩) fun _ _ hw => hw
  · intro hnamed
    exact ⟨rfl, .inr hnamed⟩

/-- A file system with a new directory at each path of a list that has nothing. -/
def Medium.filled (s : Medium) (mode : ℕ) (l : List (List Text)) (v : Volume) : Volume :=
  l.foldl (fun t p => t.add p ⟨.directory, s.creation mode⟩) v

theorem find_filled {mode : ℕ} {l : List (List Text)} {q : List Text} :
    (s.filled mode l v).find q = (v.find q).or (if q ∈ l then some ⟨.directory, s.creation mode⟩ else none) := by
  unfold Medium.filled
  rw [Tree.find_foldl_add]
  by_cases h : q ∈ l
  · rw [if_pos h, if_pos h]
  · rw [if_neg h, if_neg h]

/-- The directories of a list, where each path has a directory or nothing. -/
theorem makedirs_ends {mode : ℕ} {l : List (List Text)}
    (h : ∀ p ∈ l, ∀ o, v.find p = some o → o.stored = .directory) :
    Ends (Act.each (makedir s mode) l) v
      (fun _ w => w = s.filled mode l v)
      fun _ w => ∃ (done : List (List Text)) (p : List Text), (∀ q ∈ done, q ∈ l) ∧ p ∈ l ∧
        w = s.filled mode done v ∧ s.Refuses p := by
  have hloop := @Ends.each_mem Volume Error (List Text) v
    (fun _ w => ∃ (done : List (List Text)) (p : List Text), (∀ q ∈ done, q ∈ l) ∧ p ∈ l ∧
        w = s.filled mode done v ∧ s.Refuses p)
    (makedir s mode)
    (fun done w => (∀ q ∈ done, q ∈ l) ∧ w = s.filled mode done v)
    l ?step [] ⟨by simp, rfl⟩
  case step =>
    rintro done p w hp ⟨hdone, rfl⟩
    have hdir : ∀ o, (s.filled mode done v).find p = some o →
        o.stored = .directory := by
      intro o ho
      rw [find_filled] at ho
      cases hv : v.find p with
      | some x =>
        rw [hv] at ho
        cases ho
        exact h p hp _ hv
      | none =>
        rw [hv, Option.none_or] at ho
        split at ho
        · cases ho
          rfl
        · cases ho
    apply (makedir_ends hdir).mono
    · rintro _ w ⟨rfl, -⟩
      refine ⟨?_, by rw [Medium.filled, Medium.filled, List.foldl_append]; rfl⟩
      intro q hq
      rcases List.mem_append.mp hq with hq | hq
      · exact hdone q hq
      · rw [List.mem_singleton.mp hq]
        exact hp
    · rintro _ w ⟨rfl, hrefuses⟩
      exact ⟨done, p, hdone, hp, rfl, hrefuses⟩
  exact hloop.mono (fun _ _ hw => hw.2) fun _ _ hw => hw

theorem openFile_ends {path : List Text} (h : v.find path = none) :
    Ends (openFile s path) v (fun _ w => w = v.add path ⟨.file [], s.creation 0o666⟩ ∧ named path = true)
      fun _ w => w = v ∧ s.Refuses path := by
  unfold openFile
  apply Ends.require
  · intro hnamed
    apply Ends.get
    rw [h]
    exact create_ends.mono (fun _ _ hw => ⟨hw, hnamed⟩) fun _ _ hw => hw
  · intro hnamed
    exact ⟨rfl, .inr hnamed⟩

/-- A new file with what is written into it, or one whose copy failed. -/
theorem makefile_ends {path : List Text} {written : Option Bytes} (h : v.find path = none) :
    Ends (makefile s path written) v
      (fun _ w => ∃ data, written = some data ∧ named path = true ∧
        w = (v.add path ⟨.file [], s.creation 0o666⟩).change path fun o => { o with stored := .file data })
      fun _ w => w = v ∧ s.Refuses path ∨ w = v.add path ⟨.file [], s.creation 0o666⟩ ∧ written = none := by
  unfold makefile
  apply ((openFile_ends h).mono (fun _ _ hw => hw) fun _ _ hw => .inl hw).bind
  rintro _ w ⟨rfl, hnamed⟩
  cases written with
  | some data => exact Ends.ret rfl ⟨data, rfl, hnamed, rfl⟩
  | none => exact Ends.raised rfl (.inr ⟨rfl, rfl⟩)

/-- What extraction makes of a member. -/
def Member.extracted (m : Member) : Member := { m with data := m.written.getD [] }

/-- What extraction makes of the members, by its path. -/
def unpacked (members : List Member) (path : List Text) : Option Stored := archived (members.map Member.extracted) path

variable {done : List Member} {m : Member}

theorem extracted_names {members : List Member} : (members.map Member.extracted).map Member.name = members.map Member.name := by
  rw [List.map_map]
  rfl

theorem unpacked_of_mem {members : List Member} (hnodup : (members.map Member.name).Nodup) (h : m ∈ members) :
    unpacked members m.path = some m.extracted.stored :=
  archived_of_mem (by rwa [extracted_names]) (List.mem_map_of_mem h)

theorem unpacked_append {path : List Text} (hpath : path ≠ m.path) : unpacked (done ++ [m]) path =
    (unpacked done path).or (if path ∈ ancestors m.path then some .directory else none) := by
  unfold unpacked
  rw [List.map_append]
  exact archived_append (m := m.extracted) hpath

theorem unpacked_above (hbelow : ∀ x ∈ done, x.path ∈ ancestors m.path → x.isdir = true) {q : List Text} {o : Stored}
    (hq : q ∈ ancestors m.path) (h : unpacked done q = some o) : o = .directory := by
  refine archived_above (m := m.extracted) ?_ hq h
  intro x hx
  obtain ⟨y, hy, rfl⟩ := List.mem_map.mp hx
  exact hbelow y hy

theorem unpacked_own (hnodup : ((done ++ [m]).map Member.name).Nodup)
    (habove : ∀ x ∈ done, m.path ∈ ancestors x.path → m.isdir = true) :
    unpacked done m.path = none ∨ unpacked done m.path = some .directory ∧ m.isdir = true := by
  refine archived_own (m := m.extracted) ?_ ?_
  · rw [← extracted_names, List.map_append] at hnodup
    exact hnodup
  · intro x hx
    obtain ⟨y, hy, rfl⟩ := List.mem_map.mp hx
    exact habove y hy

/-! ### One member -/

/-- The objects of the members so far, and nothing else in the directory. -/
structure Placed (base : List Text) (v₀ : Volume) (done : List Member) (v : Volume) : Prop where
  contained : Contained base v₀ v
  stored : ∀ q, q ≠ [] → (v.find (base ++ q)).map Object.stored = unpacked done q
  files : ∀ m ∈ done, m.isfile = true → v.find (base ++ m.path) = some ⟨m.extracted.stored, m.permissions⟩

theorem not_below {p q : List Text} (hp : p <+: base) (hq : q ≠ []) : p ≠ base ++ q := by
  rintro rfl
  have hlength := hp.length_le
  rw [List.length_append] at hlength
  exact hq (List.length_eq_zero_iff.mp (by omega))

/-- Directories above a member leave the directory as it should be. -/
theorem Contained.filled (h : Contained base v₀ v) (hv₀ : EmptyDirectory v₀ base) {path : List Text}
    (ha : Allowed path) {mode : ℕ} (hmode : mode < 0o1000) {l : List (List Text)}
    (hl : ∀ p ∈ l, p ∈ ancestors (base ++ path)) : Contained base v₀ (s.filled mode l v) := by
  refine ⟨?_, ?_⟩
  · intro p hp
    rw [find_filled]
    by_cases hpl : p ∈ l
    · rcases ancestor_cases (hl p hpl) with ⟨hbase, hne⟩ | ⟨q, hq, rfl⟩
      · obtain ⟨o, ho, -⟩ := hv₀.above p hne hbase
        rw [h.outside p hp, ho]
        rfl
      · exact absurd rfl (hp q (mem_ancestors.mp hq).2.1)
    · rw [if_neg hpl, Option.or_none, h.outside p hp]
  · intro q o hq ho
    rw [find_filled] at ho
    cases hv : v.find (base ++ q) with
    | some x =>
      rw [hv] at ho
      cases ho
      exact h.inside q _ hq hv
    | none =>
      rw [hv, Option.none_or] at ho
      split at ho
      · rename_i hmem
        cases ho
        exact ⟨ha.ancestor ((append_mem_ancestors hq).mp (hl _ hmem)), creation_lt hmode⟩
      · cases ho

theorem Admitted.permissions_lt (h : Admitted m) : m.permissions < 0o1000 := by
  have hmode := h.mode
  unfold Member.permissions
  omega

/-- The directories above a new member are there, its own place is as before, and what else is in the
directory is what the archive holds. -/
structure Opened (base : List Text) (v₀ : Volume) (done : List Member) (m : Member) (w : Volume) : Prop where
  contained : Contained base v₀ w
  others : ∀ q, q ≠ [] → q ≠ m.path → (w.find (base ++ q)).map Object.stored = unpacked (done ++ [m]) q
  own : (w.find (base ++ m.path)).map Object.stored = unpacked done m.path
  files : ∀ x ∈ done, x.isfile = true → w.find (base ++ x.path) = some ⟨x.extracted.stored, x.permissions⟩

theorem Placed.filled (h : Placed base v₀ done v) (hv₀ : EmptyDirectory v₀ base) (hm : Admitted m) :
    Opened base v₀ done m (s.filled 0o777 (ancestors (base ++ m.path)) v) := by
  refine ⟨h.contained.filled hv₀ hm.allowed (by decide) fun p hp => hp, ?_, ?_, ?_⟩
  · intro q hq hne
    rw [find_filled, unpacked_append hne, ← h.stored q hq]
    by_cases ha : q ∈ ancestors m.path
    · rw [if_pos ((append_mem_ancestors hq).mpr ha), if_pos ha]
      cases v.find (base ++ q) with
      | none => rfl
      | some o => rfl
    · rw [if_neg fun hmem => ha ((append_mem_ancestors hq).mp hmem), if_neg ha, Option.or_none, Option.or_none]
  · rw [find_filled, if_neg, Option.or_none, h.stored m.path (path_ne_nil m)]
    intro hmem
    exact (mem_ancestors.mp hmem).2.2 rfl
  · intro x hx hfile
    rw [find_filled, h.files x hx hfile]
    rfl

/-- Where the directories above a member can be, there is a directory or nothing. -/
theorem Placed.parents (h : Placed base v₀ done v) (hv₀ : EmptyDirectory v₀ base)
    (hbelow : ∀ x ∈ done, x.path ∈ ancestors m.path → x.isdir = true) :
    ∀ p ∈ ancestors (base ++ m.path), ∀ o, v.find p = some o → o.stored = .directory := by
  intro p hp o ho
  rcases ancestor_cases hp with ⟨hbase, hpne⟩ | ⟨q, hq, rfl⟩
  · obtain ⟨x, hx, hdir⟩ := hv₀.above p hpne hbase
    rw [h.contained.outside p fun q hq => not_below hbase hq, hx] at ho
    cases ho
    exact hdir
  · have hstored := h.stored q (mem_ancestors.mp hq).2.1
    rw [ho] at hstored
    exact unpacked_above hbelow hq hstored.symm

/-- The file system refuses some path, or a call refuses the member. -/
def Medium.Stuck (s : Medium) (m : Member) : Prop := (∃ p, s.takes p = false) ∨ ¬ m.Settable

theorem Medium.Refuses.stuck {path : List Text} (h : s.Refuses path) (hbase : named base = true)
    (hpath : path = base ++ m.path ∨ path ∈ ancestors (base ++ m.path)) : s.Stuck m := by
  rcases h with h | h
  · exact .inl ⟨path, h⟩
  · right
    intro hm
    have hnamed : named (base ++ m.path) = true := by
      rw [named_append, hbase, named_path.mpr hm.named]
      rfl
    rcases hpath with rfl | hpath
    · rw [h] at hnamed
      cases hnamed
    · rw [named_ancestor hnamed hpath] at h
      cases h

theorem Opened.absent {w : Volume} (h : Opened base v₀ done m w)
    (hnodup : ((done ++ [m]).map Member.name).Nodup) (habove : ∀ x ∈ done, m.path ∈ ancestors x.path → m.isdir = true)
    (hdir : m.isdir = false) : w.find (base ++ m.path) = none := by
  have hown := h.own
  rcases unpacked_own hnodup habove with hn | ⟨-, hd⟩
  · rw [hn] at hown
    exact Option.map_eq_none_iff.mp hown
  · rw [hdir] at hd
    cases hd

section Opened
variable {w : Volume} (h : Opened base v₀ done m w) (hm : Admitted m)
  (hnodup : ((done ++ [m]).map Member.name).Nodup) (habove : ∀ x ∈ done, m.path ∈ ancestors x.path → m.isdir = true)
include h hm hnodup habove

/-- The file with its bytes and its mode. -/
theorem Opened.placed (hdir : m.isdir = false) {data : Bytes} (hwritten : m.written = some data) :
    Placed base v₀ (done ++ [m]) (((w.add (base ++ m.path) ⟨.file [], s.creation 0o666⟩).change (base ++ m.path)
      fun o => { o with stored := .file data }).change (base ++ m.path) fun o => { o with mode := m.permissions }) := by
  have hne : m.path ≠ [] := path_ne_nil m
  have hnone := h.absent hnodup habove hdir
  have hstored : m.extracted.stored = .file data := by
    rw [Member.stored, if_neg (by rw [show m.extracted.isdir = m.isdir from rfl, hdir]; simp), Member.extracted, hwritten]
    rfl
  have hself : unpacked (done ++ [m]) m.path = some m.extracted.stored := unpacked_of_mem hnodup (by simp)
  have hdone : ∀ x ∈ done, x.path ≠ m.path := by
    intro x hx he
    rw [List.map_append, List.nodup_append] at hnodup
    exact hnodup.2.2 _ (List.mem_map_of_mem hx) m.name (by simp) (path_injective he)
  refine ⟨?_, ?_, ?_⟩
  · have hempty : Contained base v₀ (w.add (base ++ m.path) ⟨.file [], s.creation 0o666⟩) :=
      h.contained.add hne hm.allowed (creation_lt (by decide))
    have hwhole : Contained base v₀ ((w.add (base ++ m.path) ⟨.file [], s.creation 0o666⟩).change (base ++ m.path)
        fun o => { o with stored := .file data }) := hempty.change hne fun _ ho => ho
    exact hwhole.change hne fun _ _ => hm.permissions_lt
  · intro q hq
    rw [Tree.find_change, Tree.find_change, Tree.find_add]
    by_cases hqm : q = m.path
    · subst hqm
      rw [if_pos rfl, if_pos rfl, if_pos rfl, hnone, hself, hstored]
      rfl
    · have hpath : base ++ q ≠ base ++ m.path := fun he => hqm (List.append_cancel_left he)
      rw [if_neg hpath, if_neg hpath, if_neg hpath, Option.or_none, h.others q hq hqm]
  · intro x hx hxfile
    rw [Tree.find_change, Tree.find_change, Tree.find_add]
    rcases List.mem_append.mp hx with hx | hx
    · have hpath : base ++ x.path ≠ base ++ m.path := fun he => hdone x hx (List.append_cancel_left he)
      rw [if_neg hpath, if_neg hpath, if_neg hpath, Option.or_none, h.files x hx hxfile]
    · obtain rfl := List.mem_singleton.mp hx
      rw [if_pos rfl, if_pos rfl, if_pos rfl, hnone, hstored]
      rfl

variable (hbase : named base = true)
include hbase

theorem Opened.directory (hdir : m.isdir = true) :
    Ends (makedir s 0o700 (base ++ m.path)) w (fun _ w' => Placed base v₀ (done ++ [m]) w' ∧ 0 ∉ m.name)
      fun _ w' => Contained base v₀ w' ∧ s.Stuck m := by
  have hstored : m.extracted.stored = .directory := if_pos hdir
  have hself : unpacked (done ++ [m]) m.path = some m.extracted.stored := unpacked_of_mem hnodup (by simp)
  have hown := h.own
  have hthere : ∀ o, w.find (base ++ m.path) = some o → o.stored = .directory := by
    intro o ho
    rw [ho] at hown
    rcases unpacked_own hnodup habove with hn | ⟨hd, -⟩
    · rw [hn] at hown
      cases hown
    · rw [hd] at hown
      exact Option.some.inj hown
  apply (makedir_ends hthere).mono
  · rintro _ w' ⟨rfl, hnamed⟩
    rw [named_append, hbase, Bool.true_and] at hnamed
    refine ⟨⟨h.contained.add (path_ne_nil m) hm.allowed (creation_lt (by decide)), ?_, ?_⟩, named_path.mp hnamed⟩
    · intro q hq
      rw [Tree.find_add]
      by_cases hqm : q = m.path
      · subst hqm
        rw [if_pos rfl, hself, hstored]
        cases hfind : w.find (base ++ m.path) with
        | none => rfl
        | some o =>
          have ho := hthere o hfind
          simp [ho]
      · rw [if_neg fun he => hqm (List.append_cancel_left he), Option.or_none, h.others q hq hqm]
    · intro x hx hfile
      rcases List.mem_append.mp hx with hx | hx
      · rw [Tree.find_add, h.files x hx hfile]
        rfl
      · obtain rfl := List.mem_singleton.mp hx
        unfold Member.isfile at hfile
        unfold Member.isdir at hdir
        rw [eq_of_beq hdir] at hfile
        cases hfile
  · rintro _ w' ⟨rfl, hrefuses⟩
    exact ⟨h.contained, hrefuses.stuck hbase (.inl rfl)⟩

theorem Opened.file (hdir : m.isdir = false) :
    Ends (makefile s (base ++ m.path) m.written >>= fun _ => chown m >>= fun _ => chmod base m >>= fun _ => utime m) w
      (fun _ w' => Placed base v₀ (done ++ [m]) w' ∧ m.Settable)
      fun _ w' => Contained base v₀ w' ∧ s.Stuck m := by
  have hne : m.path ≠ [] := path_ne_nil m
  have hresolve : resolve base m.name = base ++ m.path := resolve_relative hm.relative
  have hempty : Contained base v₀ (w.add (base ++ m.path) ⟨.file [], s.creation 0o666⟩) :=
    h.contained.add hne hm.allowed (creation_lt (by decide))
  have hfile : m.isfile = true := hm.plain.resolve_right (by simp [hdir])
  have hmake := (@makefile_ends w s _ m.written (h.absent hnodup habove hdir)).mono (fun _ _ hw => hw)
    (E := fun _ w' => Contained base v₀ w' ∧ s.Stuck m) (by
      rintro _ w' (⟨rfl, hrefuses⟩ | ⟨rfl, hnone⟩)
      · exact ⟨h.contained, hrefuses.stuck hbase (.inl rfl)⟩
      · exact ⟨hempty, .inr fun hs => hs.copied hfile hnone⟩)
  apply hmake.bind
  rintro _ w' ⟨data, hwritten, hnamed, rfl⟩
  rw [named_append, hbase, Bool.true_and] at hnamed
  have hwhole : Contained base v₀ ((w.add (base ++ m.path) ⟨.file [], s.creation 0o666⟩).change (base ++ m.path)
      fun o => { o with stored := .file data }) := hempty.change hne fun _ ho => ho
  apply setFile_ends.mono
  · rintro _ w'' ⟨rfl, hattributes⟩
    rw [hresolve]
    exact ⟨h.placed hm hnodup habove hdir hwritten, named_path.mp hnamed, fun _ => by simp [hwritten], hattributes⟩
  · rintro _ w'' ⟨hw, hattributes⟩
    refine ⟨?_, .inr fun hs => hattributes hs.attributes⟩
    rw [hresolve] at hw
    rcases hw with rfl | rfl
    · exact hwhole
    · exact hwhole.change hne fun _ _ => hm.permissions_lt

end Opened

/-- One more member, whole, or one that is refused. -/
theorem extractOne_ends (hv₀ : EmptyDirectory v₀ base) (h : Placed base v₀ done v) (hm : Admitted m)
    (hnodup : ((done ++ [m]).map Member.name).Nodup)
    (hbelow : ∀ x ∈ done, x.path ∈ ancestors m.path → x.isdir = true)
    (habove : ∀ x ∈ done, m.path ∈ ancestors x.path → m.isdir = true) :
    Ends (extractOne s base m) v
      (fun _ w => Placed base v₀ (done ++ [m]) w ∧ 0 ∉ m.name ∧ (m.isfile = true → m.Settable))
      fun _ w => Contained base v₀ w ∧ s.Stuck m := by
  have hfirst := (@makedirs_ends v s 0o777 _ (h.parents hv₀ hbelow)).mono (fun _ _ hw => hw)
    (E := fun _ w => Contained base v₀ w ∧ s.Stuck m) (by
      rintro _ w ⟨l, p, hl, hp, rfl, hrefuses⟩
      exact ⟨h.contained.filled hv₀ hm.allowed (by decide) hl, hrefuses.stuck hv₀.named (.inr hp)⟩)
  unfold extractOne
  rw [resolve_relative hm.relative]
  apply hfirst.bind
  rintro _ w rfl
  have hopened : Opened base v₀ done m (s.filled 0o777 (ancestors (base ++ m.path)) v) := h.filled hv₀ hm
  cases hdir : m.isdir with
  | true =>
    simp only [if_true]
    refine (hopened.directory hm hnodup habove hv₀.named hdir).mono ?_ fun _ _ hw => hw
    rintro _ w ⟨hplaced, hnamed⟩
    refine ⟨hplaced, hnamed, fun hfile => ?_⟩
    unfold Member.isfile at hfile
    unfold Member.isdir at hdir
    rw [eq_of_beq hdir] at hfile
    cases hfile
  | false =>
    simp only [Bool.false_eq_true, if_false]
    refine (hopened.file hm hnodup habove hv₀.named hdir).mono ?_ fun _ _ hw => hw
    rintro _ w ⟨hplaced, hs⟩
    exact ⟨hplaced, hs.named, fun _ => hs⟩

/-! ### All members -/

/-- Every member as extraction has it, and nothing else in the directory. -/
structure Complete (base : List Text) (members : List Member) (v : Volume) : Prop where
  stored : ∀ q, q ≠ [] → (v.find (base ++ q)).map Object.stored = unpacked members q
  objects : ∀ m ∈ members, v.find (base ++ m.path) = some ⟨m.extracted.stored, m.permissions⟩

section Members
variable {members : List Member}

theorem placed_ends (hv₀ : EmptyDirectory v₀ base) :
    ∀ {l done : List Member} {v : Volume}, Orderly (done ++ l) → Placed base v₀ done v →
      Ends (Act.each (extractOne s base) l) v
        (fun _ w => Placed base v₀ (done ++ l) w ∧ ∀ m ∈ l, 0 ∉ m.name ∧ (m.isfile = true → m.Settable))
        fun _ w => Contained base v₀ w ∧ ∃ m ∈ l, s.Stuck m := by
  intro l
  induction l with
  | nil =>
    intro done v _ h
    refine @Ends.ret _ _ _ _ _ _ _ v () rfl ⟨?_, by simp⟩
    rwa [List.append_nil]
  | cons m rest ih =>
    intro done v hordered h
    have hsplit : done ++ m :: rest = done ++ [m] ++ rest := by simp
    rw [hsplit] at hordered ⊢
    have hnodup : ((done ++ [m]).map Member.name).Nodup := by
      have hall := hordered.nodup
      rw [List.map_append, List.nodup_append] at hall
      exact hall.1
    have hmem : ∀ x ∈ done, x ∈ done ++ [m] ++ rest := by
      intro x hx
      simp [hx]
    have hown : m ∈ done ++ [m] ++ rest := by simp
    have hone := (@extractOne_ends base v₀ v s done m hv₀ h (hordered.admitted m hown) hnodup
      (fun x hx => hordered.apart x (hmem x hx) m hown) fun x hx => hordered.apart m hown x (hmem x hx)).mono
      (fun _ _ hw => hw) (E := fun _ w => Contained base v₀ w ∧ ∃ x ∈ m :: rest, s.Stuck x)
      fun _ _ hw => ⟨hw.1, m, List.mem_cons_self .., hw.2⟩
    apply hone.bind
    rintro _ w ⟨hplaced, hm⟩
    apply (ih hordered hplaced).mono
    · rintro _ w' ⟨hw', hrest⟩
      exact ⟨hw', List.forall_mem_cons.mpr ⟨hm, hrest⟩⟩
    · rintro _ w' ⟨hw', x, hx, hstuck⟩
      exact ⟨hw', x, List.mem_cons_of_mem _ hx, hstuck⟩

/-- The attributes of the directories at the end. -/
theorem directories_ends (hordered : Orderly members)
    (h : Placed base v₀ members v) {l : List Member} (hl : ∀ m, m ∈ l ↔ m ∈ members ∧ m.isdir = true) :
    Ends (Act.each (setDirectory base) l) v
      (fun _ w => Contained base v₀ w ∧ Complete base members w ∧ ∀ m ∈ l, m.Attributes)
      fun _ w => Contained base v₀ w ∧ ∃ m ∈ l, ¬ m.Attributes := by
  have hloop := @Ends.each_mem Volume Error Member v (fun _ w => Contained base v₀ w ∧ ∃ m ∈ l, ¬ m.Attributes)
    (setDirectory base)
    (fun done w => Contained base v₀ w ∧
      (∀ q, q ≠ [] → (w.find (base ++ q)).map Object.stored = unpacked members q) ∧
      (∀ m ∈ members, m.isfile = true ∨ m ∈ done → w.find (base ++ m.path) = some ⟨m.extracted.stored, m.permissions⟩) ∧
      ∀ m ∈ done, m.Attributes)
    l ?step [] ⟨h.contained, h.stored, fun m hm hf => h.files m hm (by simpa using hf), by simp⟩
  case step =>
    rintro done m w hm ⟨hcontained, hstored, hobjects, hdone⟩
    have hmem := ((hl m).mp hm).1
    have hne : m.path ≠ [] := path_ne_nil m
    have hm' := hordered.admitted m hmem
    have hresolve : resolve base m.name = base ++ m.path := resolve_relative hm'.relative
    apply (@setDirectory_ends base w m).mono
    swap
    · rintro _ w' ⟨rfl, hattributes⟩
      exact ⟨hcontained, m, hm, hattributes⟩
    rintro _ w' ⟨rfl, hattributes⟩
    rw [hresolve]
    refine ⟨hcontained.change hne fun _ _ => hm'.permissions_lt, ?_, ?_, ?_⟩
    · intro q hq
      rw [Tree.find_change, ← hstored q hq]
      split
      · cases w.find (base ++ q) with
        | none => rfl
        | some o => rfl
      · rfl
    · intro x hx hor
      rw [Tree.find_change]
      by_cases hpath : base ++ x.path = base ++ m.path
      · have hxm : x = m :=
          List.inj_on_of_nodup_map hordered.nodup hx hmem (path_injective (List.append_cancel_left hpath))
        subst hxm
        have hs := hstored x.path hne
        rw [unpacked_of_mem hordered.nodup hx] at hs
        obtain ⟨o, ho, hos⟩ := Option.map_eq_some_iff.mp hs
        rw [if_pos rfl, ho, Option.map_some, hos]
      · rw [if_neg hpath]
        apply hobjects x hx
        rcases hor with hf | hd
        · exact .inl hf
        · rcases List.mem_append.mp hd with hd | hd
          · exact .inr hd
          · obtain rfl := List.mem_singleton.mp hd
            exact absurd rfl hpath
    · intro x hx
      rcases List.mem_append.mp hx with hx | hx
      · exact hdone x hx
      · rw [List.mem_singleton.mp hx]
        exact hattributes
  apply hloop.mono _ fun _ _ hw => hw
  rintro _ w ⟨hcontained, hstored, hobjects, hall⟩
  refine ⟨hcontained, ⟨hstored, ?_⟩, hall⟩
  intro m hm
  apply hobjects m hm
  rcases (hordered.admitted m hm).plain with hf | hd
  · exact .inl hf
  · exact .inr ((hl m).mpr ⟨hm, hd⟩)

theorem extractall_ends (hv₀ : EmptyDirectory v₀ base) (hordered : Orderly members) :
    Ends (extractall s base members) v₀
      (fun _ w => Contained base v₀ w ∧ Complete base members w ∧ ∀ m ∈ members, m.Settable)
      fun _ w => Contained base v₀ w ∧ ∃ m ∈ members, s.Stuck m := by
  have hstart : Placed base v₀ [] v₀ := by
    refine ⟨⟨fun _ _ => rfl, ?_⟩, ?_, by simp⟩
    · intro q o hq ho
      rw [hv₀.empty q hq] at ho
      cases ho
    · intro q hq
      rw [hv₀.empty q hq]
      rfl
  have hdirectories : ∀ m, m ∈ (members.filter Member.isdir).mergeSort (fun a b => decide (b.name ≤ a.name)) ↔
      m ∈ members ∧ m.isdir = true := by
    intro m
    simp [List.mem_mergeSort]
  apply (@placed_ends base v₀ s hv₀ members [] v₀ hordered hstart).bind
  rintro _ w ⟨hplaced, hnames⟩
  apply (directories_ends hordered hplaced hdirectories).mono
  · rintro _ w' ⟨hcontained, hcomplete, hattributes⟩
    refine ⟨hcontained, hcomplete, ?_⟩
    intro m hm
    obtain ⟨hnamed, hfile⟩ := hnames m hm
    rcases (hordered.admitted m hm).plain with hf | hd
    · exact hfile hf
    · refine ⟨hnamed, fun hf => ?_, hattributes m ((hdirectories m).mpr ⟨hm, hd⟩)⟩
      unfold Member.isfile at hf
      unfold Member.isdir at hd
      rw [eq_of_beq hd] at hf
      cases hf
  · rintro _ w' ⟨hcontained, m, hm, hattributes⟩
    exact ⟨hcontained, m, ((hdirectories m).mp hm).1, .inr fun hs => hattributes hs.attributes⟩

/-! ### The extraction of a restore -/

/-- Of the members that a restore reads: they are files and directories of a backup without special
bits, and none is in the way of another; whatever the file system refuses, they are extracted safely,
and where it refuses nothing, completely; the files have at most 16 MiB together, and what is written
of them are the listed documents. -/
structure Extracts (lib : Reader) (manifest : List (Text × Json)) (again : List Member) : Prop where
  ordered : Orderly again
  contained : ∀ (s : Medium) (base : List Text) (v : Volume), EmptyDirectory v base →
    Contained base v (extractall s base again v).2
  completes : ∀ (s : Medium) (base : List Text) (v : Volume), EmptyDirectory v base → (∀ p, s.takes p = true) →
    ∃ w, extractall s base again v = (.ret (), w) ∧ Complete base again w
  size : ((again.filter Member.isfile).map fun m => (m.written.getD []).length).sum ≤ 16 * 1024 * 1024
  documents : ∃ sums, manifest.lookup (text "sha256") = some (.obj sums) ∧ Documents lib again sums Member.written

/-- What the sizes of the directories take off the sum that verification makes. -/
def discount (members : List Member) : ℤ := -((members.filter Member.isdir).map Member.size).sum

/-- What extraction writes of `m` passes for what verification has read of `x`. -/
structure Unaltered (lib : Reader) (x m : Member) : Prop where
  digest : m.written.map lib.sha256 = some (lib.sha256 x.data)
  object : m.name ∈ [PRODUCT, ACTIVE] → ∀ data, m.written = some data →
    ((∃ ps, lib.load data = .ok (.obj ps)) ↔ ∃ ps, lib.load x.data = .ok (.obj ps))

/-- The second opening gives the files that verification saw. -/
structure SameFiles (lib : Reader) (members again : List Member) : Prop where
  names : ∀ name, name ∈ (dataFiles again).map Member.name ↔ name ∈ (dataFiles members).map Member.name
  unaltered : ∀ m ∈ dataFiles again, ∀ x ∈ dataFiles members, x.name = m.name → Unaltered lib x m

/-- What the second opening gives passes the checks of the members, with no directory that hides the
size of the files and no member that a call refuses, and its files are written as the verified ones
were read. -/
structure Sound (lib : Reader) (members again : List Member) : Prop where
  ordered : Orderly again
  weighed : (again.map Member.size).sum + discount again ≤ 16 * 1024 * 1024
  settable : ∀ m ∈ again, m.Settable
  files : SameFiles lib members again

theorem kind_apart {m : Member} (h : m.isdir = true) : m.isfile = false := by
  unfold Member.isfile
  unfold Member.isdir at h
  rw [eq_of_beq h]
  rfl

/-- Without the directories the sum of verification is that of the files. -/
theorem weigh_files {members : List Member} (h : ∀ m ∈ members, m.isfile = true ∨ m.isdir = true) :
    (members.map Member.size).sum + discount members = ((members.filter Member.isfile).map Member.size).sum := by
  unfold discount
  induction members with
  | nil => simp
  | cons m rest ih =>
    have hrest := ih fun x hx => h x (List.mem_cons_of_mem _ hx)
    rw [List.map_cons, List.sum_cons]
    rcases h m (List.mem_cons_self ..) with hf | hd
    · have hnot : m.isdir = false := by
        rw [← Bool.not_eq_true]
        exact fun hd => by simp [kind_apart hd] at hf
      rw [List.filter_cons_of_neg (by simp [hnot]), List.filter_cons_of_pos hf, List.map_cons, List.sum_cons]
      omega
    · rw [List.filter_cons_of_pos hd, List.filter_cons_of_neg (by simp [kind_apart hd]), List.map_cons, List.sum_cons]
      omega

/-- Files that are written whole have the sizes of their headers. -/
theorem written_sizes {members : List Member}
    (hsize : ∀ m ∈ members, m.isfile = true → ∀ data, m.written = some data → (data.length : ℤ) = m.size)
    (h : ∀ m ∈ members, m.isfile = true → m.written ≠ none) :
    ((((members.filter Member.isfile).map fun m => (m.written.getD []).length).sum : ℕ) : ℤ) =
      ((members.filter Member.isfile).map Member.size).sum := by
  induction members with
  | nil => simp
  | cons m rest ih =>
    have hrest := ih (fun x hx => hsize x (List.mem_cons_of_mem _ hx)) fun x hx => h x (List.mem_cons_of_mem _ hx)
    by_cases hf : m.isfile = true
    · obtain ⟨data, hdata⟩ := Option.ne_none_iff_exists'.mp (h m (List.mem_cons_self ..) hf)
      have hone := hsize m (List.mem_cons_self ..) hf data hdata
      rw [List.filter_cons_of_pos hf, List.map_cons, List.sum_cons, List.map_cons, List.sum_cons, hdata]
      simp only [Option.getD_some]
      omega
    · rw [List.filter_cons_of_neg hf]
      exact hrest

variable {lib : Reader} {again : List Member} {sums : List (Text × Json)}

/-- The sums and the objects that verification saw are those of what is written, exactly if its files
are there unaltered. -/
theorem documents_written (hnodup : (members.map Member.name).Nodup) (hnodup' : (again.map Member.name).Nodup)
    (h : Documents lib members sums fun m => some m.data) :
    Documents lib again sums Member.written ↔ SameFiles lib members again := by
  constructor
  · intro h'
    refine ⟨fun name => (h'.complete name).symm.trans (h.complete name), ?_⟩
    intro m hm x hx hxm
    constructor
    · obtain ⟨data, hdata, hsum⟩ := h.listed x hx
      obtain ⟨data', hdata', hsum'⟩ := h'.listed m hm
      rw [hxm, hsum'] at hsum
      cases hdata
      rw [hdata', Option.map_some, Json.str.inj (Option.some.inj hsum)]
    · intro hname data hdata
      obtain ⟨y, hy, hyname, data₁, ps, h₁, hload⟩ := h.objects _ hname
      obtain ⟨z, hz, hzname, data₂, qs, h₂, hload'⟩ := h'.objects _ hname
      have hyx : y = x := List.inj_on_of_nodup_map hnodup (mem_dataFiles.mp hy).1 (mem_dataFiles.mp hx).1
        (hyname.trans hxm.symm)
      have hzm : z = m := List.inj_on_of_nodup_map hnodup' (mem_dataFiles.mp hz).1 (mem_dataFiles.mp hm).1 hzname
      subst hyx hzm
      cases h₁
      rw [hdata] at h₂
      cases h₂
      exact iff_of_true ⟨qs, hload'⟩ ⟨ps, hload⟩
  · intro hs
    refine ⟨fun name => (h.complete name).trans (hs.names name).symm, ?_, ?_⟩
    · intro m hm
      obtain ⟨x, hx, hxm⟩ := List.mem_map.mp ((hs.names m.name).mp (List.mem_map_of_mem hm))
      obtain ⟨data, hdata, hsum⟩ := h.listed x hx
      cases hdata
      obtain ⟨data', hdata', hdigest⟩ := Option.map_eq_some_iff.mp (hs.unaltered m hm x hx hxm).digest
      exact ⟨data', hdata', by rw [hdigest, ← hxm]; exact hsum⟩
    · intro name hname
      obtain ⟨x, hx, rfl, data, ps, hdata, hload⟩ := h.objects name hname
      cases hdata
      obtain ⟨m, hm, hmx⟩ := List.mem_map.mp ((hs.names x.name).mpr (List.mem_map_of_mem hx))
      have hunaltered := hs.unaltered m hm x hx hmx.symm
      obtain ⟨data', hdata', -⟩ := Option.map_eq_some_iff.mp hunaltered.digest
      obtain ⟨qs, hqs⟩ := (hunaltered.object (hmx ▸ hname) data' hdata').mpr ⟨ps, hload⟩
      exact ⟨m, hm, hmx, data', qs, hdata', hqs⟩

end Members

namespace Sample

/-- The directory of a restore, below the root. -/
def volume : Volume := ⟨[([text "tmp"], ⟨.directory, 0o700⟩)], by simp⟩

theorem volume_empty : EmptyDirectory volume [text "tmp"] := by
  refine ⟨by decide, ?_, ?_⟩
  · intro p hne hp
    rcases List.prefix_cons_iff.mp hp with rfl | ⟨q, rfl, hq⟩
    · exact absurd rfl hne
    · rw [List.prefix_nil.mp hq]
      exact ⟨_, rfl, rfl⟩
  · intro q hq
    rw [Tree.find_eq_none]
    simp [volume, hq]

theorem sound : Sound reader members members := by
  have hordered := (verifyMembers_documents (verifyArchive_members verified rfl)).1
  have hwritten : ∀ m ∈ members, m.written = some m.data := by simp [members, Member.plain]
  refine ⟨hordered, by decide +kernel, ?_, ⟨fun _ => Iff.rfl, ?_⟩⟩
  · have hall : ∀ m ∈ members, 0 ∉ m.name ∧ m.owned = true ∧ m.timed = true ∧
        -2 ^ 31 ≤ m.mode ∧ m.mode < 2 ^ 31 := by decide
    intro m hm
    obtain ⟨hname, howned, htimed, hmode⟩ := hall m hm
    exact ⟨hname, fun _ => by simp [hwritten m hm], howned, hmode, htimed⟩
  · intro m hm x hx hxm
    have hm' := (mem_dataFiles.mp hm).1
    obtain rfl : x = m := List.inj_on_of_nodup_map hordered.nodup (mem_dataFiles.mp hx).1 hm' hxm
    refine ⟨by rw [hwritten x hm', Option.map_some], ?_⟩
    intro _ data hdata
    rw [hwritten x hm'] at hdata
    cases hdata
    rfl

/-- The members of the compressed archive in a polyglot. -/
def hidden : List Member :=
  [.plain (text "settings") 0o755 .directory [], .plain PRODUCT 0o644 .regular product,
    .plain ACTIVE 0o4755 .regular active]

/-- The deflated blocks of the hidden members, their check sum and their length. -/
def deflated : Bytes :=
   [237, 148, 49, 14, 194, 48, 16, 4, 239, 41, 150, 31, 0, 235, 112, 151, 72, 233, 40, 121, 70, 20, 12, 10,
    10, 49, 138, 157, 52, 136, 191, 83, 32, 26, 75, 208, 57, 141, 61, 205, 62, 96, 52, 235, 109, 8, 195,
    116, 245, 123, 74, 7, 0, 52, 34, 132, 15, 241, 2, 0, 25, 22, 102, 6, 42, 128, 128, 166, 62, 8, 41, 161,
    13, 88, 124, 232, 102, 2, 40, 79, 30, 179, 59, 47, 125, 56, 77, 23, 183, 187, 121, 55, 165, 242, 95, 51,
    255, 246, 95, 69, 254, 141, 49, 194, 164, 80, 252, 39, 231, 169, 189, 157, 135, 110, 212, 173, 210, 71,
    163, 95, 84, 200, 10, 255, 253, 255, 174, 15, 195, 106, 147, 124, 0, 0, 254, 251, 255, 70, 162, 254, 43,
    160, 46, 253, 111, 211, 255, 234, 198, 229, 110, 117, 171, 154, 18, 127, 126, 188, 1, 145, 129, 160,
    169, 0, 10, 0, 0]

/-- The first header has the name of nothing: its bytes begin a gzip file, whose extra field is all of
the plain archive. -/
def opener : Tar.Header := ⟨[31, 139, 8, 4, 0, 0, 0, 0, 0, 3, 244, 19], 0, 0, 0, text "g", []⟩

def polyglot : BackupFile where
  regular := true
  content := Tar.blocks ((opener, []) :: members.map entry) ++ List.replicate 1024 0 ++ deflated

/-- The library on the polyglot. -/
def polyglotReader : Reader :=
  { reader with getmembers := fun mode _ => .ok (if mode = .plain then members else hidden) }

set_option maxRecDepth 4000 in
theorem polyglot_verified : verifyArchive polyglotReader polyglot = .ok manifest := by
  have hlength : polyglot.content.length ≤ 32 * 1024 * 1024 := by
    have hsize : Tar.size ((opener, []) :: members.map entry) ≤ 16 * 1024 * 1024 := by decide
    have htail : deflated.length = 167 := rfl
    unfold polyglot
    rw [List.length_append, List.length_append, Tar.length_blocks, List.length_replicate, htail]
    omega
  have hregular : Boot.require polyglot.regular (text "backup is not a regular archive") = .ok () := rfl
  unfold verifyArchive
  rw [bind_of_ok hregular, bind_of_ok (a := ()) (Boot.require_ok.mpr (decide_eq_true hlength))]
  rfl

end Sample

end Monutchee.Storage.Restore
