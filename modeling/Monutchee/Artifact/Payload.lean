import Monutchee.Artifact.Archive
import Monutchee.Lib.Sorted
import Mathlib.Data.List.Pairwise

/-!
# The payload directory (mnc-artifact.py:74-113)

`walk_payload` goes through a directory tree in the order of the names, `collect_payload` turns
what it yields into the list of payload files. The walk is a generator, so its exceptions and
the checks of the caller take turns: it is modelled by the list of what it yields. On a tree of
regular files and directories the list depends on the files alone, since it is in strictly
increasing order of the paths, compared component by component.
-/

namespace Monutchee.Artifact
open Monutchee.Lib

structure Stat where
  mode : ℕ
  uid : ℕ
  gid : ℕ
  mtime : ℤ
  deriving DecidableEq

/-- A directory holds its entries in the order `scandir` gives them. -/
inductive Node where
  | file (stat : Stat) (content : Bytes)
  | directory (stat : Stat) (entries : List (Text × Node))
  | symlink
  | special

inductive Event where
  | found (path : List Text) (stat : Stat) (content : Bytes)
  | symlink (path : List Text)
  | special (path : List Text)
  deriving DecidableEq

/-- `sorted(..., key=lambda item: item.name)` -/
def sortedByName {α : Type} (entries : List (Text × α)) : List (Text × α) :=
  entries.insertionSort fun a b => a.1 ≤ b.1

mutual

/-- What the walk yields for the node at `path`. -/
def walkNode (path : List Text) : Node → List Event
  | .file stat content => [.found path stat content]
  | .directory _ entries =>
    -- to visit the sorted entries is to sort what was visited by the name of the entry
    (sortedByName (walkEntries path entries)).flatMap Prod.snd
  | .symlink => [.symlink path]
  | .special => [.special path]

def walkEntries (path : List Text) : List (Text × Node) → List (Text × List Event)
  | [] => []
  | (name, node) :: rest => (name, walkNode (path ++ [name]) node) :: walkEntries path rest

end

def walkPayload (tree : Node) : List Event := walkNode [] tree

def normalizedMode (mode : ℕ) : ℕ := if mode &&& 0o111 ≠ 0 then 0o755 else 0o644

/-- `source` is the file itself, as it does not change meanwhile. -/
structure PayloadFile where
  path : Text
  source : Bytes
  size : ℕ
  sha256 : Text
  mode : ℕ
  deriving DecidableEq

/-- `source.relative_to(payload_dir).as_posix()` -/
def relative (path : List Text) : Text := joined [slash] path

def payloadFile (lib : Library) (path : Text) (content : Bytes) (mode : ℕ) : PayloadFile where
  path := path
  source := content
  size := content.length
  sha256 := lib.sha256 content
  mode := normalizedMode mode

/-- The loop of `collect_payload`; `directory` only words messages. -/
def collectLoop (lib : Library) (directory : Text) : List Event → Except Error (List PayloadFile)
  | [] => return []
  | .symlink path :: _ => raise
      (text "payload must not contain symlinks: " ++ directory ++ [slash] ++ relative path)
  | .special path :: _ => raise
      (text "payload entry must be a regular file: " ++ directory ++ [slash] ++ relative path)
  | .found path stat content :: rest => do
    let _ ← safeRelativePath lib.toPython (relative path)
    refuse (relative path ∈ RESERVED_NAMES)
      (.artifactError (text "payload uses reserved path: " ++ relative path))
    let files ← collectLoop lib directory rest
    return payloadFile lib (relative path) content stat.mode :: files

def collectPayload (lib : Library) (directory : Text) (tree : Node) :
    Except Error (List PayloadFile) :=
  match tree with
  | .directory .. => do
    let files ← collectLoop lib directory (walkPayload tree)
    refuse files.isEmpty (.artifactError (text "artifact payload is empty"))
    return files
  | _ => raise (text "payload directory does not exist: " ++ directory)

/-! ### The files of a tree -/

mutual

/-- The files below the node at `path`, in no particular order. -/
def Node.leaves (path : List Text) : Node → List (List Text × Stat × Bytes)
  | .file stat content => [(path, stat, content)]
  | .directory _ entries => Node.entryLeaves path entries
  | .symlink => []
  | .special => []

def Node.entryLeaves (path : List Text) : List (Text × Node) → List (List Text × Stat × Bytes)
  | [] => []
  | (name, node) :: rest => node.leaves (path ++ [name]) ++ Node.entryLeaves path rest

end

/-- Regular files and directories only, with names a file system can hold. -/
inductive Node.Regular : Node → Prop
  | file (stat : Stat) (content : Bytes) : Regular (.file stat content)
  | directory (stat : Stat) {entries : List (Text × Node)}
      (distinct : (entries.map Prod.fst).Nodup)
      (names : ∀ name ∈ entries.map Prod.fst, name ≠ [] ∧ slash ∉ name)
      (nodes : ∀ node ∈ entries.map Prod.snd, Regular node) : Regular (.directory stat entries)

def found (leaf : List Text × Stat × Bytes) : Event := .found leaf.1 leaf.2.1 leaf.2.2

theorem mem_walkEntries {path : List Text} {entries : List (Text × Node)} {p : Text × List Event} :
    p ∈ walkEntries path entries ↔
      ∃ q ∈ entries, p = (q.1, walkNode (path ++ [q.1]) q.2) := by
  induction entries with
  | nil => simp [walkEntries]
  | cons q rest ih =>
    obtain ⟨name, node⟩ := q
    simp [walkEntries, ih]

theorem mem_entryLeaves {path : List Text} {entries : List (Text × Node)}
    {leaf : List Text × Stat × Bytes} :
    leaf ∈ Node.entryLeaves path entries ↔
      ∃ q ∈ entries, leaf ∈ q.2.leaves (path ++ [q.1]) := by
  induction entries with
  | nil => simp [Node.entryLeaves]
  | cons q rest ih =>
    obtain ⟨name, node⟩ := q
    simp [Node.entryLeaves, ih]

theorem sortedByName_eq {α : Type} (entries : List (Text × α)) : sortedByName entries = sortBy Prod.fst entries := rfl

theorem mem_sortedByName {α : Type} {entries : List (Text × α)} {p : Text × α} :
    p ∈ sortedByName entries ↔ p ∈ entries := by
  rw [sortedByName_eq, mem_sortBy]

theorem mem_walkDirectory {path : List Text} {stat : Stat} {entries : List (Text × Node)}
    {event : Event} : event ∈ walkNode path (.directory stat entries) ↔
      ∃ q ∈ entries, event ∈ walkNode (path ++ [q.1]) q.2 := by
  rw [walkNode, List.mem_flatMap]
  constructor
  · rintro ⟨p, hp, he⟩
    obtain ⟨q, hq, rfl⟩ := mem_walkEntries.mp (mem_sortedByName.mp hp)
    exact ⟨q, hq, he⟩
  · rintro ⟨q, hq, he⟩
    exact ⟨_, mem_sortedByName.mpr (mem_walkEntries.mpr ⟨q, hq, rfl⟩), he⟩

/-- On a regular tree the walk yields its files and nothing else. -/
theorem mem_walkNode {node : Node} (h : node.Regular) (path : List Text) (event : Event) :
    event ∈ walkNode path node ↔ ∃ leaf ∈ node.leaves path, event = found leaf := by
  induction h generalizing path with
  | file stat content => simp [walkNode, Node.leaves, found]
  | directory stat _ _ _ ih =>
    rw [mem_walkDirectory]
    constructor
    · rintro ⟨q, hq, he⟩
      obtain ⟨leaf, hl, rfl⟩ := (ih q.2 (List.mem_map_of_mem hq) _).mp he
      exact ⟨leaf, mem_entryLeaves.mpr ⟨q, hq, hl⟩, rfl⟩
    · rintro ⟨leaf, hl, rfl⟩
      obtain ⟨q, hq, hl⟩ := mem_entryLeaves.mp hl
      exact ⟨q, hq, (ih q.2 (List.mem_map_of_mem hq) _).mpr ⟨leaf, hl, rfl⟩⟩

/-! ### The order of the walk -/

def Event.path : Event → List Text
  | .found path _ _ => path
  | .symlink path => path
  | .special path => path

/-- Paths are compared by their components. -/
def Earlier (a b : List Text) : Prop := a < b

theorem Earlier.asymm {a b : List Text} (h : Earlier a b) : ¬ Earlier b a :=
  fun h' => lt_asymm (a := a) (b := b) h h'

theorem walkNode_below {node : Node} (h : node.Regular) (path : List Text) :
    ∀ event ∈ walkNode path node, path <+: event.path := by
  induction h generalizing path with
  | file stat content =>
    intro event he
    rw [walkNode, List.mem_singleton] at he
    rw [he]
    exact List.prefix_rfl
  | directory stat _ _ _ ih =>
    intro event he
    obtain ⟨q, hq, he⟩ := mem_walkDirectory.mp he
    exact (List.prefix_append path [q.1]).trans (ih q.2 (List.mem_map_of_mem hq) _ event he)

theorem map_fst_walkEntries (path : List Text) (entries : List (Text × Node)) :
    (walkEntries path entries).map Prod.fst = entries.map Prod.fst := by
  induction entries with
  | nil => rfl
  | cons q rest ih =>
    obtain ⟨name, node⟩ := q
    simp [walkEntries, ih]

/-- Distinct names come out in strictly increasing order. -/
theorem sortedByName_pairwise {α : Type} {entries : List (Text × α)}
    (h : (entries.map Prod.fst).Nodup) : (sortedByName entries).Pairwise fun a b => a.1 < b.1 := by
  rw [sortedByName_eq]
  exact sortBy_lt h

theorem earlier_of_names {path a b : List Text} {x y : Text} (hxy : x < y)
    (ha : path ++ [x] <+: a) (hb : path ++ [y] <+: b) : Earlier a b := by
  obtain ⟨u, rfl⟩ := ha
  obtain ⟨v, rfl⟩ := hb
  rw [List.append_assoc, List.append_assoc]
  show List.Lex (· < ·) _ _
  exact List.Lex.append_left _ (List.Lex.rel hxy) path

theorem walkNode_sorted {node : Node} (h : node.Regular) (path : List Text) :
    (walkNode path node).Pairwise fun a b => Earlier a.path b.path := by
  induction h generalizing path with
  | file stat content => exact List.pairwise_singleton _ _
  | directory stat distinct _ nodes ih =>
    rw [walkNode, List.pairwise_flatMap]
    constructor
    · intro p hp
      obtain ⟨q, hq, rfl⟩ := mem_walkEntries.mp (mem_sortedByName.mp hp)
      exact ih q.2 (List.mem_map_of_mem hq) _
    · rw [← map_fst_walkEntries path] at distinct
      refine (sortedByName_pairwise distinct).imp_of_mem ?_
      intro p p' hp hp' hlt x hx y hy
      obtain ⟨q, hq, rfl⟩ := mem_walkEntries.mp (mem_sortedByName.mp hp)
      obtain ⟨q', hq', rfl⟩ := mem_walkEntries.mp (mem_sortedByName.mp hp')
      exact earlier_of_names hlt (walkNode_below (nodes _ (List.mem_map_of_mem hq)) _ x hx)
        (walkNode_below (nodes _ (List.mem_map_of_mem hq')) _ y hy)

/-! ### What collect_payload returns -/

/-- A payload directory: its files and directories are regular. -/
structure PayloadTree where
  stat : Stat
  entries : List (Text × Node)
  regular : (Node.directory stat entries).Regular

def PayloadTree.node (tree : PayloadTree) : Node := .directory tree.stat tree.entries

def Event.leaf? : Event → Option (List Text × Stat × Bytes)
  | .found path stat content => some (path, stat, content)
  | _ => none

/-- The files of the tree in the order of the walk. -/
def PayloadTree.sortedLeaves (tree : PayloadTree) : List (List Text × Stat × Bytes) :=
  (walkPayload tree.node).filterMap Event.leaf?

theorem map_found_filterMap {events : List Event}
    (h : ∀ event ∈ events, ∃ leaf, event = found leaf) :
    (events.filterMap Event.leaf?).map found = events := by
  induction events with
  | nil => rfl
  | cons event rest ih =>
    obtain ⟨leaf, rfl⟩ := h event (List.mem_cons_self ..)
    have hrest := ih fun e he => h e (List.mem_cons_of_mem _ he)
    have hleaf : Event.leaf? (found leaf) = some leaf := rfl
    rw [List.filterMap_cons_some hleaf, List.map_cons, hrest]

variable (tree : PayloadTree)

theorem PayloadTree.walk_eq : walkPayload tree.node = tree.sortedLeaves.map found := by
  refine (map_found_filterMap ?_).symm
  intro event he
  obtain ⟨leaf, -, rfl⟩ := (mem_walkNode tree.regular [] event).mp he
  exact ⟨leaf, rfl⟩

theorem PayloadTree.mem_sortedLeaves {leaf : List Text × Stat × Bytes} :
    leaf ∈ tree.sortedLeaves ↔ leaf ∈ tree.node.leaves [] := by
  have hwalk := mem_walkNode tree.regular [] (found leaf)
  have hfound : ∀ a b, found a = found b → a = b := by
    rintro ⟨p, s, c⟩ ⟨p', s', c'⟩ h
    cases h
    rfl
  have hmap : found leaf ∈ walkPayload tree.node ↔ leaf ∈ tree.sortedLeaves := by
    rw [tree.walk_eq, List.mem_map_of_injective fun a b => hfound a b]
  rw [← hmap]
  refine hwalk.trans ?_
  constructor
  · rintro ⟨other, ho, he⟩
    rw [hfound _ _ he]
    exact ho
  · intro h
    exact ⟨leaf, h, rfl⟩

theorem PayloadTree.sortedLeaves_pairwise :
    tree.sortedLeaves.Pairwise fun a b => Earlier a.1 b.1 := by
  have h := walkNode_sorted tree.regular []
  have hw : (walkPayload tree.node).Pairwise fun a b => Earlier a.path b.path := h
  rw [tree.walk_eq, List.pairwise_map] at hw
  exact hw

/-- Below a regular node every component is a name of the file system. -/
theorem leaves_names {node : Node} (h : node.Regular) {path : List Text}
    (hpath : ∀ name ∈ path, name ≠ [] ∧ slash ∉ name) :
    ∀ leaf ∈ node.leaves path, path <+: leaf.1 ∧ ∀ name ∈ leaf.1, name ≠ [] ∧ slash ∉ name := by
  induction h generalizing path with
  | file stat content =>
    intro leaf hl
    rw [Node.leaves, List.mem_singleton] at hl
    rw [hl]
    exact ⟨List.prefix_rfl, hpath⟩
  | directory stat _ names _ ih =>
    intro leaf hl
    rw [Node.leaves, mem_entryLeaves] at hl
    obtain ⟨q, hq, hl⟩ := hl
    have hlonger : ∀ name ∈ path ++ [q.1], name ≠ [] ∧ slash ∉ name := by
      intro name hn
      rw [List.mem_append, List.mem_singleton] at hn
      rcases hn with hn | rfl
      · exact hpath name hn
      · exact names _ (List.mem_map_of_mem hq)
    obtain ⟨hbelow, hall⟩ := ih q.2 (List.mem_map_of_mem hq) hlonger leaf hl
    exact ⟨(List.prefix_append path [q.1]).trans hbelow, hall⟩

theorem PayloadTree.leaf_names {leaf : List Text × Stat × Bytes}
    (h : leaf ∈ tree.node.leaves []) :
    leaf.1 ≠ [] ∧ ∀ name ∈ leaf.1, name ≠ [] ∧ slash ∉ name := by
  refine ⟨?_, (leaves_names tree.regular (by simp) leaf h).2⟩
  rw [PayloadTree.node, Node.leaves, mem_entryLeaves] at h
  obtain ⟨q, hq, hl⟩ := h
  cases tree.regular with
  | directory _ _ names nodes =>
    have hnames : ∀ name ∈ [] ++ [q.1], name ≠ [] ∧ slash ∉ name := by
      intro name hn
      rw [List.nil_append, List.mem_singleton] at hn
      rw [hn]
      exact names _ (List.mem_map_of_mem hq)
    have hbelow := (leaves_names (nodes _ (List.mem_map_of_mem hq)) hnames leaf hl).1
    intro h0
    rw [h0, List.prefix_nil] at hbelow
    cases hbelow

/-- The path of a file is recovered from its relative name. -/
theorem PayloadTree.components_relative {leaf : List Text × Stat × Bytes}
    (h : leaf ∈ tree.node.leaves []) : components (relative leaf.1) = leaf.1 := by
  obtain ⟨hne, hall⟩ := tree.leaf_names h
  exact List.splitOn_intercalate slash (fun name hn => (hall name hn).2) hne

/-- What the archive takes over of a file: relative path, content and whether any execute bit is
set. -/
def triple (leaf : List Text × Stat × Bytes) : Text × Bytes × Bool :=
  (relative leaf.1, leaf.2.2, leaf.2.1.mode &&& 0o111 ≠ 0)

def PayloadTree.triples : Set (Text × Bytes × Bool) :=
  fun x => ∃ leaf ∈ tree.node.leaves [], triple leaf = x

def payloadOf (lib : Library) (x : Text × Bytes × Bool) : PayloadFile where
  path := x.1
  source := x.2.1
  size := x.2.1.length
  sha256 := lib.sha256 x.2.1
  mode := if x.2.2 then 0o755 else 0o644

/-- The triples in the order of the walk. -/
def PayloadTree.listing : List (Text × Bytes × Bool) := tree.sortedLeaves.map triple

theorem PayloadTree.mem_listing {x : Text × Bytes × Bool} :
    x ∈ tree.listing ↔ x ∈ tree.triples := by
  unfold PayloadTree.listing
  rw [List.mem_map]
  constructor
  · rintro ⟨leaf, hl, hx⟩
    exact ⟨leaf, tree.mem_sortedLeaves.mp hl, hx⟩
  · rintro ⟨leaf, hl, hx⟩
    exact ⟨leaf, tree.mem_sortedLeaves.mpr hl, hx⟩

theorem PayloadTree.listing_pairwise :
    tree.listing.Pairwise fun a b => Earlier (components a.1) (components b.1) := by
  unfold PayloadTree.listing
  rw [List.pairwise_map]
  refine tree.sortedLeaves_pairwise.imp_of_mem ?_
  intro a b ha hb h
  have ha' : components (triple a).1 = a.1 := tree.components_relative (tree.mem_sortedLeaves.mp ha)
  have hb' : components (triple b).1 = b.1 := tree.components_relative (tree.mem_sortedLeaves.mp hb)
  rw [ha', hb']
  exact h

theorem PayloadTree.listing_paths_nodup : (tree.listing.map Prod.fst).Nodup := by
  unfold List.Nodup
  rw [List.pairwise_map]
  refine tree.listing_pairwise.imp ?_
  intro a b h he
  rw [he] at h
  exact h.asymm h

/-- The same files, the same list: neither the order of the directory entries nor anything else of
the tree enters. -/
theorem PayloadTree.listing_eq {tree tree' : PayloadTree} (h : tree.triples = tree'.triples) :
    tree.listing = tree'.listing := by
  have hmem : ∀ x, x ∈ tree.listing ↔ x ∈ tree'.listing := by
    intro x
    rw [tree.mem_listing, tree'.mem_listing, h]
  have hperm : tree.listing.Perm tree'.listing :=
    (List.perm_ext_iff_of_nodup tree.listing_paths_nodup.of_map
      tree'.listing_paths_nodup.of_map).mpr hmem
  refine hperm.eq_of_pairwise ?_ tree.listing_pairwise tree'.listing_pairwise
  intro a b _ _ hab hba
  exact absurd hba hab.asymm

theorem collectLoop_found {lib : Library} {directory : Text}
    {leaves : List (List Text × Stat × Bytes)} {files : List PayloadFile} :
    collectLoop lib directory (leaves.map found) = .ok files ↔
      files = (leaves.map triple).map (payloadOf lib) ∧
        ∀ x ∈ leaves.map triple, SafePath x.1 ∧ x.1 ∉ RESERVED_NAMES := by
  induction leaves generalizing files with
  | nil =>
    simp only [List.map_nil, collectLoop, pure_ok]
    constructor
    · rintro rfl
      exact ⟨rfl, by simp⟩
    · rintro ⟨rfl, -⟩
      rfl
  | cons leaf rest ih =>
    have hfile : payloadFile lib (relative leaf.1) leaf.2.2 leaf.2.1.mode =
        payloadOf lib (triple leaf) := by
      simp [payloadFile, payloadOf, triple, normalizedMode]
    simp only [List.map_cons, found, collectLoop, bind_ok, safeRelativePath_ok, refuse_ok, pure_ok,
      decide_eq_false_iff_not, hfile]
    constructor
    · rintro ⟨_, ⟨hsafe, rfl⟩, ⟨⟩, hfree, more, hmore, rfl⟩
      obtain ⟨rfl, hall⟩ := ih.mp hmore
      refine ⟨rfl, ?_⟩
      intro x hx
      rcases List.mem_cons.mp hx with rfl | hx
      · exact ⟨hsafe, hfree⟩
      · exact hall x hx
    · rintro ⟨rfl, hall⟩
      have hhead := hall (triple leaf) (List.mem_cons_self ..)
      exact ⟨_, ⟨hhead.1, rfl⟩, (), hhead.2, _,
        ih.mpr ⟨rfl, fun x hx => hall x (List.mem_cons_of_mem _ hx)⟩, rfl⟩

/-- `collect_payload` on a payload tree, in terms of its triples alone. -/
theorem collectPayload_ok {lib : Library} {directory : Text} {files : List PayloadFile} :
    collectPayload lib directory tree.node = .ok files ↔
      files = tree.listing.map (payloadOf lib) ∧ tree.listing ≠ [] ∧
        ∀ x ∈ tree.listing, SafePath x.1 ∧ x.1 ∉ RESERVED_NAMES := by
  have hunfold : collectPayload lib directory tree.node = (do
      let files ← collectLoop lib directory (walkPayload tree.node)
      refuse files.isEmpty (.artifactError (text "artifact payload is empty"))
      return files) := rfl
  rw [hunfold, tree.walk_eq]
  simp only [bind_ok, collectLoop_found, refuse_ok, pure_ok, List.isEmpty_eq_false_iff]
  constructor
  · rintro ⟨_, ⟨rfl, hall⟩, ⟨⟩, hne, rfl⟩
    exact ⟨rfl, by simpa [PayloadTree.listing] using hne, hall⟩
  · rintro ⟨rfl, hne, hall⟩
    exact ⟨_, ⟨rfl, hall⟩, (), by simpa [PayloadTree.listing] using hne, rfl⟩

end Monutchee.Artifact
