import Mathlib.Data.List.Infix
import Mathlib.Data.List.Nodup

/-!
# Trees of files

A tree is kept flat, by the components of the path to each entry; its root is not listed. What
a tree means is the partial function `find`. An entry is added where there is none and changed
where there is one, so that a path never has two.
-/

namespace Monutchee.Lib.Files

variable {ν ε : Type}

/-- Two paths that part after some common names. -/
def Apart (p q : List ν) : Prop :=
  ∃ common a b p' q', a ≠ b ∧ p = common ++ a :: p' ∧ q = common ++ b :: q'

theorem Apart.symm {p q : List ν} (h : Apart p q) : Apart q p := by
  obtain ⟨common, a, b, p', q', hne, hp, hq⟩ := h
  exact ⟨common, b, a, q', p', hne.symm, hq, hp⟩

theorem Apart.not_prefix {p q : List ν} (h : Apart p q) : ¬ p <+: q := by
  obtain ⟨common, a, b, p', q', hne, rfl, rfl⟩ := h
  intro hbegins
  rw [List.prefix_append_right_inj, List.cons_prefix_cons] at hbegins
  exact hne hbegins.1

theorem Apart.ne {p q : List ν} (h : Apart p q) : p ≠ q := by
  intro he
  exact h.not_prefix (by rw [he])

variable [DecidableEq ν]

structure Tree (ν ε : Type) where
  entries : List (List ν × ε)
  nodup : (entries.map Prod.fst).Nodup

/-- The directories a path lies in, from the top, the root apart. -/
def ancestors (path : List ν) : List (List ν) := path.inits.filter fun q => q ≠ [] && q ≠ path

theorem mem_ancestors {q path : List ν} : q ∈ ancestors path ↔ q <+: path ∧ q ≠ [] ∧ q ≠ path := by
  simp [ancestors, List.mem_inits]

theorem mem_ancestors_append {root rest : List ν} (hroot : root ≠ []) (hrest : rest ≠ []) :
    root ∈ ancestors (root ++ rest) :=
  mem_ancestors.mpr ⟨List.prefix_append _ _, hroot, by simpa using hrest⟩

theorem append_not_mem_ancestors {root rest : List ν} : root ++ rest ∉ ancestors root := by
  intro h
  obtain ⟨hbegins, -, hne⟩ := mem_ancestors.mp h
  have hlength := hbegins.length_le
  have hnil : rest = [] := by
    rw [List.length_append] at hlength
    exact List.length_eq_zero_iff.mp (by omega)
  exact hne (by rw [hnil, List.append_nil])

theorem Apart.not_mem_ancestors {p q : List ν} (h : Apart p q) : p ∉ ancestors q := fun hm =>
  h.not_prefix (mem_ancestors.mp hm).1

namespace Tree

def empty : Tree ν ε := ⟨[], List.nodup_nil⟩

def find (t : Tree ν ε) (path : List ν) : Option ε := t.entries.lookup path

theorem find_eq_none {t : Tree ν ε} {path : List ν} :
    t.find path = none ↔ path ∉ t.entries.map Prod.fst := by
  rw [find, List.lookup_eq_none_iff, List.mem_map]
  constructor
  · rintro h ⟨x, hx, rfl⟩
    simpa using h x hx
  · intro h x hx
    rw [bne_iff_ne]
    rintro rfl
    exact h ⟨x, hx, rfl⟩

/-- An entry where there is none. -/
def add (t : Tree ν ε) (path : List ν) (e : ε) : Tree ν ε :=
  if h : t.find path = none then
    { entries := t.entries ++ [(path, e)]
      nodup := by
        rw [List.map_append, List.nodup_append]
        refine ⟨t.nodup, by simp, ?_⟩
        intro a ha b hb hab
        rw [List.map_singleton, List.mem_singleton] at hb
        rw [hab, hb] at ha
        exact find_eq_none.mp h ha }
  else t

def change (t : Tree ν ε) (path : List ν) (f : ε → ε) : Tree ν ε where
  entries := t.entries.map fun x => if x.1 = path then (x.1, f x.2) else x
  nodup := by
    have hkeys : (t.entries.map fun x => if x.1 = path then (x.1, f x.2) else x).map Prod.fst =
        t.entries.map Prod.fst := by
      rw [List.map_map]
      apply List.map_congr_left
      intro x _
      simp only [Function.comp_apply]
      split <;> rfl
    rw [hkeys]
    exact t.nodup

/-- The same paths, with what `f` makes of the entries. -/
def map {δ : Type} (f : ε → δ) (t : Tree ν ε) : Tree ν δ where
  entries := t.entries.map fun x => (x.1, f x.2)
  nodup := by
    rw [List.map_map]
    exact t.nodup

theorem find_add {t : Tree ν ε} {path q : List ν} {e : ε} :
    (t.add path e).find q = (t.find q).or (if q = path then some e else none) := by
  unfold add
  split
  · show (t.entries ++ [(path, e)]).lookup q = _
    rw [List.lookup_append]
    by_cases hq : q = path
    · simp [find, hq]
    · simp [find, hq, List.lookup_cons, beq_false_of_ne hq]
  · rename_i h
    by_cases hq : q = path
    · obtain ⟨d, hd⟩ := Option.ne_none_iff_exists'.mp h
      rw [hq, hd]
      rfl
    · rw [if_neg hq, Option.or_none]

theorem find_change {t : Tree ν ε} {path q : List ν} {f : ε → ε} :
    (t.change path f).find q = if q = path then (t.find q).map f else t.find q := by
  unfold change find
  simp only
  induction t.entries with
  | nil => simp
  | cons x l ih =>
    rw [List.map_cons, List.lookup_cons, List.lookup_cons]
    by_cases hx : q = x.1
    · subst hx
      by_cases hp : x.1 = path
      · simp [hp]
      · simp [hp]
    · have hkey : (if x.1 = path then (x.1, f x.2) else x).1 = x.1 := by split <;> rfl
      rw [hkey, beq_false_of_ne hx]
      exact ih

/-- A tree without what is at and below a path. -/
def prune (t : Tree ν ε) (path : List ν) : Tree ν ε where
  entries := t.entries.filter fun x => ¬ path <+: x.1
  nodup := t.nodup.sublist (List.filter_sublist.map Prod.fst)

theorem find_prune {t : Tree ν ε} {path q : List ν} :
    (t.prune path).find q = if path <+: q then none else t.find q := by
  unfold prune find
  simp only
  induction t.entries with
  | nil => simp
  | cons x l ih =>
    by_cases hx : path <+: x.1
    · rw [List.filter_cons_of_neg (by simpa using hx), ih, List.lookup_cons]
      by_cases hq : path <+: q
      · rw [if_pos hq, if_pos hq]
      · have hne : q ≠ x.1 := fun he => hq (he ▸ hx)
        rw [if_neg hq, if_neg hq, beq_false_of_ne hne]
    · rw [List.filter_cons_of_pos (by simpa using hx), List.lookup_cons, List.lookup_cons, ih]
      by_cases hq : q = x.1
      · simp [hq, hx]
      · rw [beq_false_of_ne hq]

/-- A tree with an entry at a path, and a directory `d` wherever one was missing above it. -/
def put (t : Tree ν ε) (d : ε) (path : List ν) (e : ε) : Tree ν ε :=
  (((ancestors path).foldl (fun t q => t.add q d) t).add path e).change path fun _ => e

theorem find_foldl_add {paths : List (List ν)} {t : Tree ν ε} {d : ε} {q : List ν} :
    (paths.foldl (fun t p => t.add p d) t).find q =
      (t.find q).or (if q ∈ paths then some d else none) := by
  induction paths generalizing t with
  | nil => simp
  | cons p ps ih =>
    rw [List.foldl_cons, ih, find_add, Option.or_assoc]
    congr 1
    by_cases hp : q = p
    · simp [hp]
    · simp [hp]

theorem find_put {t : Tree ν ε} {d e : ε} {path q : List ν} :
    (t.put d path e).find q =
      if q = path then some e else (t.find q).or (if q ∈ ancestors path then some d else none) := by
  unfold put
  rw [find_change, find_add, find_foldl_add]
  by_cases hq : q = path
  · subst hq
    rw [if_pos rfl, if_pos rfl, if_pos rfl]
    rcases (t.find q).or _ with _ | x
    · rfl
    · rfl
  · rw [if_neg hq, if_neg hq, if_neg hq, Option.or_none]

/-- The entries at and below a path, by what follows it. -/
def subtree (t : Tree ν ε) (root : List ν) : List (List ν × ε) :=
  t.entries.filterMap fun x => if root <+: x.1 then some (x.1.drop root.length, x.2) else none

theorem lookup_subtree (t : Tree ν ε) (root r : List ν) :
    (t.subtree root).lookup r = t.find (root ++ r) := by
  unfold subtree find
  induction t.entries with
  | nil => rfl
  | cons x l ih =>
    rw [List.filterMap_cons, List.lookup_cons]
    by_cases hx : root <+: x.1
    · obtain ⟨s, hs⟩ := hx
      rw [if_pos ⟨s, hs⟩]
      simp only [List.lookup_cons, ← hs, List.drop_left]
      by_cases hr : r = s
      · simp [hr]
      · rw [beq_false_of_ne hr, beq_false_of_ne (fun h => hr (List.append_cancel_left h))]
        exact ih
    · rw [if_neg hx]
      have hne : root ++ r ≠ x.1 := fun h => hx ⟨r, h⟩
      rw [beq_false_of_ne hne]
      exact ih

theorem nodup_subtree (t : Tree ν ε) (root : List ν) : ((t.subtree root).map Prod.fst).Nodup := by
  have hkeys : (t.subtree root).map Prod.fst =
      (t.entries.map Prod.fst).filterMap fun q => if root <+: q then some (q.drop root.length) else none := by
    rw [subtree, List.map_filterMap, List.filterMap_map]
    apply List.filterMap_congr
    intro x _
    simp only [Function.comp_apply]
    split <;> rfl
  rw [hkeys]
  apply t.nodup.filterMap
  intro q q' r hq hq'
  simp only [Option.mem_def, Option.ite_none_right_eq_some, Option.some.injEq] at hq hq'
  obtain ⟨⟨s, rfl⟩, hs⟩ := hq
  obtain ⟨⟨s', rfl⟩, hs'⟩ := hq'
  rw [List.drop_left] at hs hs'
  rw [hs, hs']

end Tree

/-- A listing is a dictionary: two of them are equal when every key of one leads to the same value
in the other. -/
def sameListing {β : Type} [DecidableEq β] (a b : List (List ν × β)) : Bool :=
  (a ++ b).all fun x => a.lookup x.1 == b.lookup x.1

theorem sameListing_iff {β : Type} [DecidableEq β] {a b : List (List ν × β)} :
    sameListing a b = true ↔ ∀ k, a.lookup k = b.lookup k := by
  unfold sameListing
  rw [List.all_eq_true]
  constructor
  · intro h k
    by_cases hk : ∃ x ∈ a ++ b, x.1 = k
    · obtain ⟨x, hx, rfl⟩ := hk
      exact beq_iff_eq.mp (h x hx)
    · have hnone : ∀ l : List (List ν × β), l ⊆ a ++ b → l.lookup k = none := by
        intro l hl
        rw [List.lookup_eq_none_iff]
        intro x hx
        rw [bne_iff_ne]
        rintro rfl
        exact hk ⟨x, hl hx, rfl⟩
      rw [hnone a (List.subset_append_left _ _), hnone b (List.subset_append_right _ _)]
  · intro h x _
    exact beq_iff_eq.mpr (h x.1)

theorem lookup_map {β γ : Type} (f : List ν → β → γ) (l : List (List ν × β)) (k : List ν) :
    (l.map fun x => (x.1, f x.1 x.2)).lookup k = (l.lookup k).map (f k) := by
  induction l with
  | nil => rfl
  | cons x l ih =>
    rw [List.map_cons, List.lookup_cons, List.lookup_cons]
    by_cases hk : k = x.1
    · simp [hk]
    · simp only [beq_false_of_ne hk]
      exact ih

theorem Tree.find_map {δ : Type} {t : Tree ν ε} {f : ε → δ} {path : List ν} :
    (t.map f).find path = (t.find path).map f := lookup_map (fun _ => f) t.entries path

theorem lookup_of_nodup {β : Type} {l : List (List ν × β)} (h : (l.map Prod.fst).Nodup)
    {x : List ν × β} (hx : x ∈ l) : l.lookup x.1 = some x.2 := by
  induction l with
  | nil => cases hx
  | cons y l ih =>
    rw [List.map_cons, List.nodup_cons] at h
    rw [List.lookup_cons]
    rcases List.mem_cons.mp hx with rfl | hx
    · simp
    · have hne : x.1 ≠ y.1 := fun he => h.1 (he ▸ List.mem_map_of_mem hx)
      rw [beq_false_of_ne hne]
      exact ih h.2 hx

theorem mem_of_lookup {β : Type} {l : List (List ν × β)} {k : List ν} {b : β}
    (h : l.lookup k = some b) : (k, b) ∈ l := by
  obtain ⟨l₁, l₂, rfl, -⟩ := List.lookup_eq_some_iff.mp h
  simp

theorem Tree.mem_subtree {t : Tree ν ε} {root r : List ν} {e : ε} :
    (r, e) ∈ t.subtree root ↔ t.find (root ++ r) = some e := by
  rw [← t.lookup_subtree]
  exact ⟨fun h => lookup_of_nodup (t.nodup_subtree root) h, mem_of_lookup⟩

end Monutchee.Lib.Files
