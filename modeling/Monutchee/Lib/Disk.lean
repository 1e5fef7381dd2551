import Mathlib.Data.Nat.Notation
import Mathlib.Logic.Function.Basic

/-!
# A directory after a power cut

The names of a directory lead to nodes, the nodes have contents. A program sees every change at once.
A change of a name is durable after the directory was synchronised, the content of a node after the
node was: of everything before that the disk may keep what it likes, in any order. A power cut leaves
of each name the durable entry or one of the pending ones, and in a node that was not synchronised
anything.
-/

namespace Monutchee.Lib

/-- Nodes from `used` on are free. `names` is what a program sees, `durable` what is on the disk,
`pending` the changes in between. -/
structure Disk (N C : Type) where
  node : ℕ → C
  clean : ℕ → Bool
  used : ℕ
  names : N → Option ℕ
  durable : N → Option ℕ
  pending : List (N × Option ℕ)

namespace Disk
variable {N C : Type}

def view (d : Disk N C) (n : N) : Option C := (d.names n).map d.node

/-- The content of a node changes. -/
def store (d : Disk N C) (i : ℕ) (c : C) : Disk N C :=
  { d with node := Function.update d.node i c, clean := Function.update d.clean i false }

def sync (d : Disk N C) (i : ℕ) : Disk N C := { d with clean := Function.update d.clean i true }

def syncNames (d : Disk N C) : Disk N C := { d with durable := d.names, pending := [] }

/-- The entries that a power cut may leave. -/
def Entry (d : Disk N C) (n : N) (e : Option ℕ) : Prop := e = d.durable n ∨ (n, e) ∈ d.pending

/-- The files that may be found after a power cut. -/
def Remains (d : Disk N C) (files : N → Option C) : Prop :=
  ∃ (dir : N → Option ℕ) (content : ℕ → C), (∀ n, d.Entry n (dir n)) ∧
    (∀ i, d.clean i = true → content i = d.node i) ∧ ∀ n, files n = (dir n).map content

/-- All entries are nodes in use, and what a program sees is one of them. -/
structure Sound (d : Disk N C) : Prop where
  bound : ∀ n i, d.Entry n (some i) → i < d.used
  shown : ∀ n, d.Entry n (d.names n)

/-! ### One name after a power cut -/

/-- What may be found behind an entry. -/
def Reads (d : Disk N C) (e : Option ℕ) (c : Option C) : Prop :=
  match e with
  | none => c = none
  | some i => ∃ x, c = some x ∧ (d.clean i = true → x = d.node i)

def Found (d : Disk N C) (n : N) (c : Option C) : Prop := ∃ e, d.Entry n e ∧ d.Reads e c

variable {d : Disk N C} {n m : N} {e : Option ℕ} {c : Option C} {i : ℕ}

theorem Remains.found {files : N → Option C} (h : d.Remains files) (n : N) : d.Found n (files n) := by
  obtain ⟨dir, content, hdir, hclean, hfiles⟩ := h
  refine ⟨dir n, hdir n, ?_⟩
  rw [hfiles n]
  cases dir n with
  | none => exact rfl
  | some i => exact ⟨content i, rfl, hclean i⟩

/-! ### Nodes and the whole directory -/

/-- What a node holds does not matter where no entry leads to it. -/
theorem reads_congr {d' : Disk N C} (hnode : ∀ j, e = some j → d'.node j = d.node j ∧ d'.clean j = d.clean j) :
    d'.Reads e c ↔ d.Reads e c := by
  cases e with
  | none => exact Iff.rfl
  | some j =>
    obtain ⟨hn, hc⟩ := hnode j rfl
    simp only [Reads, hn, hc]

theorem found_congr {d' : Disk N C} (hentry : ∀ e, d'.Entry n e ↔ d.Entry n e)
    (hnode : ∀ j, d.Entry n (some j) → d'.node j = d.node j ∧ d'.clean j = d.clean j) :
    d'.Found n c ↔ d.Found n c := by
  constructor
  · intro h
    obtain ⟨e, he, hreads⟩ := h
    have hold := (hentry e).mp he
    exact ⟨e, hold, (reads_congr fun j hj => hnode j (hj ▸ hold)).mp hreads⟩
  · intro h
    obtain ⟨e, he, hreads⟩ := h
    exact ⟨e, (hentry e).mpr he, (reads_congr fun j hj => hnode j (hj ▸ he)).mpr hreads⟩

theorem found_store {x : C} (h : ¬ d.Entry n (some i)) : (d.store i x).Found n c ↔ d.Found n c := by
  apply found_congr
  · intro e
    exact Iff.rfl
  · intro j hj
    have hne : j ≠ i := by
      intro hji
      exact h (hji ▸ hj)
    exact ⟨Function.update_of_ne hne .., Function.update_of_ne hne ..⟩

theorem found_sync (h : ¬ d.Entry n (some i)) : (d.sync i).Found n c ↔ d.Found n c := by
  apply found_congr
  · intro e
    exact Iff.rfl
  · intro j hj
    have hne : j ≠ i := by
      intro hji
      exact h (hji ▸ hj)
    exact ⟨rfl, Function.update_of_ne hne ..⟩

theorem found_syncNames : d.syncNames.Found n c ↔ d.Reads (d.names n) c := by
  constructor
  · intro h
    obtain ⟨e, he, hreads⟩ := h
    rcases he with hdurable | hpending
    · rw [hdurable] at hreads
      exact hreads
    · cases hpending
  · intro h
    exact ⟨d.names n, .inl rfl, h⟩

theorem Sound.store (h : d.Sound) {x : C} : (d.store i x).Sound := ⟨h.bound, h.shown⟩

theorem Sound.sync (h : d.Sound) : (d.sync i).Sound := ⟨h.bound, h.shown⟩

theorem Sound.syncNames (h : d.Sound) : d.syncNames.Sound := by
  constructor
  · intro n i hn
    rcases hn with hdurable | hpending
    · exact h.bound n i (hdurable ▸ h.shown n)
    · cases hpending
  · intro n
    exact .inl rfl

/-- After the directory was synchronised there is no more to be found than before. -/
theorem Sound.found_syncNames (h : d.Sound) (hc : d.syncNames.Found n c) : d.Found n c :=
  ⟨d.names n, h.shown n, Disk.found_syncNames.mp hc⟩

/-- No entry leads to a free node. -/
theorem Sound.free (h : d.Sound) : ¬ d.Entry n (some d.used) := by
  intro hn
  exact Nat.lt_irrefl _ (h.bound n d.used hn)

/-! ### Names -/

variable [DecidableEq N]

/-- The entry of a name changes. -/
def enter (d : Disk N C) (n : N) (e : Option ℕ) : Disk N C :=
  { d with names := Function.update d.names n e, pending := d.pending ++ [(n, e)] }

def create (d : Disk N C) (n : N) (c : C) : Disk N C := { (d.store d.used c).enter n (some d.used) with used := d.used + 1 }

def rename (d : Disk N C) (a b : N) : Disk N C := (d.enter b (d.names a)).enter a none

def unlink (d : Disk N C) (n : N) : Disk N C := d.enter n none

theorem view_enter : (d.enter m e).view = Function.update d.view m (e.map d.node) := by
  funext n
  by_cases hn : n = m
  · rw [hn]
    simp [view, enter]
  · simp [view, enter, hn]

/-- A node that one name leads to. -/
theorem view_store {x : C} (h : d.names m = some i) (halone : ∀ n, n ≠ m → d.names n ≠ some i) :
    (d.store i x).view = Function.update d.view m (some x) := by
  funext n
  by_cases hn : n = m
  · rw [hn]
    simp [view, store, h]
  · rw [Function.update_of_ne hn]
    have hother := halone n hn
    unfold view store
    dsimp only
    cases hj : d.names n with
    | none => rfl
    | some j =>
      rw [hj] at hother
      have hne : j ≠ i := by
        intro hji
        exact hother (congrArg some hji)
      rw [Option.map_some, Option.map_some, Function.update_of_ne hne]

theorem view_create {x : C} (h : ∀ n j, d.names n = some j → j < d.used) :
    (d.create m x).view = Function.update d.view m (some x) := by
  have hstore : (d.store d.used x).view = d.view := by
    funext n
    unfold view store
    dsimp only
    cases hj : d.names n with
    | none => rfl
    | some j =>
      have hne : j ≠ d.used := Nat.ne_of_lt (h n j hj)
      rw [Option.map_some, Option.map_some, Function.update_of_ne hne]
  have hnode : (some d.used).map (d.store d.used x).node = some x := by
    simp [store]
  have henter := view_enter (d := d.store d.used x) (m := m) (e := some d.used)
  rw [hstore, hnode] at henter
  exact henter

theorem view_rename {a b : N} :
    (d.rename a b).view = Function.update (Function.update d.view b (d.view a)) a none := by
  unfold rename
  rw [view_enter, view_enter]
  rfl

theorem names_rename {a b : N} (h : b ≠ a) : (d.rename a b).names b = d.names a :=
  (Function.update_of_ne h ..).trans (Function.update_self ..)

theorem view_unlink : (d.unlink m).view = Function.update d.view m none := view_enter

theorem found_remains (h : d.Found n c) : ∃ files, d.Remains files ∧ files n = c := by
  obtain ⟨e, he, hreads⟩ := h
  have hdir : ∀ m, d.Entry m (Function.update d.durable n e m) := by
    intro m
    by_cases hm : m = n
    · rw [hm, Function.update_self]
      exact he
    · rw [Function.update_of_ne hm]
      exact .inl rfl
  cases e with
  | none =>
    refine ⟨fun m => (Function.update d.durable n none m).map d.node, ⟨_, d.node, hdir, fun _ _ => rfl, fun _ => rfl⟩, ?_⟩
    dsimp only
    rw [Function.update_self]
    exact Eq.symm hreads
  | some i =>
    obtain ⟨x, hx, hclean⟩ := hreads
    refine ⟨fun m => (Function.update d.durable n (some i) m).map (Function.update d.node i x),
      ⟨_, Function.update d.node i x, hdir, ?_, fun _ => rfl⟩, ?_⟩
    · intro j hj
      by_cases hji : j = i
      · rw [hji, Function.update_self]
        exact hclean (hji ▸ hj)
      · rw [Function.update_of_ne hji]
    · dsimp only
      rw [Function.update_self, Option.map_some, Function.update_self]
      exact hx.symm


theorem entry_enter {e' : Option ℕ} : (d.enter m e).Entry n e' ↔ d.Entry n e' ∨ n = m ∧ e' = e := by
  simp only [Entry, enter, List.mem_append, List.mem_singleton, Prod.mk.injEq, or_assoc]

theorem found_enter : (d.enter m e).Found n c ↔ d.Found n c ∨ n = m ∧ d.Reads e c := by
  constructor
  · intro h
    obtain ⟨e', he', hreads⟩ := h
    rcases entry_enter.mp he' with hold | ⟨hn, hnew⟩
    · exact .inl ⟨e', hold, hreads⟩
    · rw [hnew] at hreads
      exact .inr ⟨hn, hreads⟩
  · intro h
    rcases h with ⟨e', he', hreads⟩ | ⟨hn, hreads⟩
    · exact ⟨e', entry_enter.mpr (.inl he'), hreads⟩
    · exact ⟨e, entry_enter.mpr (.inr ⟨hn, rfl⟩), hreads⟩

theorem found_create (h : d.Sound) {x : C} (hn : n ≠ m) : (d.create m x).Found n c ↔ d.Found n c := by
  have henter : ((d.store d.used x).enter m (some d.used)).Found n c ↔ (d.store d.used x).Found n c := by
    rw [found_enter]
    simp [hn]
  exact henter.trans (found_store h.free)

theorem entry_create {x : C} (hn : n ≠ m) : (d.create m x).Entry n e ↔ d.Entry n e := by
  have henter : ((d.store d.used x).enter m (some d.used)).Entry n e ↔ (d.store d.used x).Entry n e := by
    rw [entry_enter]
    simp [hn]
  exact henter

theorem found_rename {a b : N} (hn : n ≠ a) :
    (d.rename a b).Found n c ↔ d.Found n c ∨ n = b ∧ d.Reads (d.names a) c := by
  unfold rename
  rw [found_enter, found_enter]
  simp [hn]

theorem found_unlink (h : n ≠ m) : (d.unlink m).Found n c ↔ d.Found n c := by
  unfold unlink
  rw [found_enter]
  simp [h]

theorem Sound.enter (h : d.Sound) (he : ∀ i, e = some i → i < d.used) : (d.enter m e).Sound := by
  constructor
  · intro n i hn
    rcases entry_enter.mp hn with hold | ⟨-, hnew⟩
    · exact h.bound n i hold
    · exact he i hnew.symm
  · intro n
    rw [entry_enter]
    by_cases hn : n = m
    · right
      exact ⟨hn, by rw [hn]; exact Function.update_self ..⟩
    · left
      have hsame : (d.enter m e).names n = d.names n := Function.update_of_ne hn ..
      rw [hsame]
      exact h.shown n

theorem Sound.create (h : d.Sound) {x : C} : (d.create m x).Sound := by
  constructor
  · intro n i hn
    have hn' : ((d.store d.used x).enter m (some d.used)).Entry n (some i) := hn
    rcases entry_enter.mp hn' with hold | ⟨-, hnew⟩
    · exact Nat.lt_succ_of_lt (h.bound n i hold)
    · injection hnew with hi
      rw [hi]
      exact Nat.lt_succ_self d.used
  · intro n
    have hsound : ((d.store d.used x).enter m (some d.used)).Entry n
        (((d.store d.used x).enter m (some d.used)).names n) := by
      rw [entry_enter]
      by_cases hn : n = m
      · right
        exact ⟨hn, by rw [hn]; exact Function.update_self ..⟩
      · left
        have hsame : ((d.store d.used x).enter m (some d.used)).names n = d.names n := Function.update_of_ne hn ..
        rw [hsame]
        exact h.shown n
    exact hsound

theorem Sound.rename (h : d.Sound) {a b : N} : (d.rename a b).Sound := by
  have hnames : ∀ i, d.names a = some i → i < d.used := by
    intro i hi
    exact h.bound a i (hi ▸ h.shown a)
  apply (h.enter hnames).enter
  intro i hi
  cases hi

theorem Sound.unlink (h : d.Sound) : (d.unlink m).Sound := by
  apply h.enter
  intro i hi
  cases hi

end Disk

end Monutchee.Lib
