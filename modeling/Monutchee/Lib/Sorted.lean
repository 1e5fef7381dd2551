import Mathlib.Data.List.Sort
import Mathlib.Order.Lattice

/-!
# Sorting by a key, sorted association lists and bounded loops

A list whose keys are distinct has one sorted order, whatever order it came in. `emplace` puts a
key that is not there yet into a sorted association list. `boundedFold` is a loop that gives up
once a size that only grows has passed a bound: the size in the end decides.
-/

namespace Monutchee.Lib

section Sorting
variable {α κ : Type} [LinearOrder κ] {key : α → κ} {l l' : List α}

def sortBy (key : α → κ) (l : List α) : List α := l.insertionSort fun a b => key a ≤ key b

theorem sortBy_perm (key : α → κ) (l : List α) : (sortBy key l).Perm l := List.perm_insertionSort _ l

@[simp] theorem mem_sortBy {a : α} : a ∈ sortBy key l ↔ a ∈ l := (sortBy_perm key l).mem_iff

theorem sortBy_le (key : α → κ) (l : List α) : (sortBy key l).Pairwise fun a b => key a ≤ key b := by
  have : Std.Total fun a b : α => key a ≤ key b := ⟨fun a b => le_total (key a) (key b)⟩
  have : IsTrans α fun a b => key a ≤ key b := ⟨fun a b c => le_trans⟩
  exact List.pairwise_insertionSort _ l

theorem sortBy_lt (h : (l.map key).Nodup) : (sortBy key l).Pairwise fun a b => key a < key b := by
  have hnodup : ((sortBy key l).map key).Nodup := ((sortBy_perm key l).map key).nodup_iff.mpr h
  have hne : (sortBy key l).Pairwise fun a b => key a ≠ key b := List.pairwise_map.mp hnodup
  exact ((sortBy_le key l).and hne).imp fun hab => lt_of_le_of_ne hab.1 hab.2

theorem sortBy_eq_of_perm (h : l.Perm l') (hnodup : (l.map key).Nodup) : sortBy key l = sortBy key l' := by
  have hnodup' : (l'.map key).Nodup := (h.map key).nodup_iff.mp hnodup
  have hperm : (sortBy key l).Perm (sortBy key l') :=
    ((sortBy_perm key l).trans h).trans (sortBy_perm key l').symm
  apply List.Perm.eq_of_pairwise ?_ (sortBy_lt hnodup) (sortBy_lt hnodup') hperm
  intro a b _ _ hab hba
  exact absurd hab (lt_asymm hba)

/-- An element with the least key comes first. -/
theorem sortBy_head {a : α} (hnodup : (l.map key).Nodup) (ha : a ∈ l) (hleast : ∀ b ∈ l, key a ≤ key b) :
    ∃ rest, sortBy key l = a :: rest := by
  have hsorted := sortBy_lt hnodup
  have hmem : a ∈ sortBy key l := mem_sortBy.mpr ha
  cases hs : sortBy key l with
  | nil =>
    rw [hs] at hmem
    cases hmem
  | cons b rest =>
    rw [hs] at hmem hsorted
    rcases List.mem_cons.mp hmem with rfl | hrest
    · exact ⟨rest, rfl⟩
    · have hlt : key b < key a := (List.pairwise_cons.mp hsorted).1 a hrest
      have hle : key a ≤ key b := hleast b (mem_sortBy.mp (by rw [hs]; exact List.mem_cons_self ..))
      exact absurd hlt (not_lt.mpr hle)

theorem le_of_head {a : α} {rest : List α} (h : sortBy key l = a :: rest) {b : α} (hb : b ∈ l) : key a ≤ key b := by
  have hle := sortBy_le key l
  rw [h] at hle
  have hmem : b ∈ a :: rest := by
    rw [← h]
    exact mem_sortBy.mpr hb
  rcases List.mem_cons.mp hmem with rfl | hrest
  · exact le_rfl
  · exact (List.pairwise_cons.mp hle).1 b hrest

end Sorting

section Maps
variable {κ β : Type} [LinearOrder κ] {k : κ} {v : β} {m : List (κ × β)}

/-- `std::map::emplace` -/
def emplace (k : κ) (v : β) : List (κ × β) → List (κ × β)
  | [] => [(k, v)]
  | (j, w) :: rest =>
    if k < j then (k, v) :: (j, w) :: rest
    else if k = j then (j, w) :: rest
    else (j, w) :: emplace k v rest

theorem mem_emplace {p : κ × β} (h : p ∈ emplace k v m) : p ∈ m ∨ p = (k, v) := by
  induction m with
  | nil => exact .inr (List.mem_singleton.mp h)
  | cons q rest ih =>
    obtain ⟨j, w⟩ := q
    rw [emplace] at h
    split at h
    · rcases List.mem_cons.mp h with h | h
      · exact .inr h
      · exact .inl h
    · split at h
      · exact .inl h
      · rcases List.mem_cons.mp h with h | h
        · exact .inl (h ▸ List.mem_cons_self ..)
        · rcases ih h with h | h
          · exact .inl (List.mem_cons_of_mem _ h)
          · exact .inr h

theorem emplace_sublist : m.Sublist (emplace k v m) := by
  induction m with
  | nil => exact List.nil_sublist _
  | cons q rest ih =>
    obtain ⟨j, w⟩ := q
    rw [emplace]
    split
    · exact List.sublist_cons_self _ _
    · split
      · exact List.Sublist.refl _
      · exact ih.cons_cons _

theorem emplace_has_key : ∃ w, (k, w) ∈ emplace k v m := by
  induction m with
  | nil => exact ⟨v, List.mem_singleton.mpr rfl⟩
  | cons q rest ih =>
    obtain ⟨j, w⟩ := q
    rw [emplace]
    split
    · exact ⟨v, List.mem_cons_self ..⟩
    · split
      next heq => exact ⟨w, heq ▸ List.mem_cons_self ..⟩
      next =>
        obtain ⟨w', hw'⟩ := ih
        exact ⟨w', List.mem_cons_of_mem _ hw'⟩

theorem emplace_sorted (h : m.Pairwise fun a b => a.1 < b.1) : (emplace k v m).Pairwise fun a b => a.1 < b.1 := by
  induction m with
  | nil => exact List.pairwise_singleton _ _
  | cons q rest ih =>
    obtain ⟨j, w⟩ := q
    obtain ⟨hhead, hrest⟩ := List.pairwise_cons.mp h
    rw [emplace]
    split
    next hlt =>
      refine List.pairwise_cons.mpr ⟨?_, h⟩
      intro p hp
      rcases List.mem_cons.mp hp with rfl | hp
      · exact hlt
      · exact hlt.trans (hhead p hp)
    next hlt =>
      split
      next => exact h
      next hne =>
        refine List.pairwise_cons.mpr ⟨?_, ih hrest⟩
        intro p hp
        rcases mem_emplace hp with hp | rfl
        · exact hhead p hp
        · exact lt_of_le_of_ne (not_lt.mp hlt) (Ne.symm hne)

/-- Sorted association lists with the same entries are equal. -/
theorem sorted_ext {m m' : List (κ × β)} (h : m.Pairwise fun a b => a.1 < b.1)
    (h' : m'.Pairwise fun a b => a.1 < b.1) (hmem : ∀ p, p ∈ m ↔ p ∈ m') : m = m' := by
  have hnodup : m.Nodup := h.imp fun hab hne => absurd hab (by rw [hne]; exact lt_irrefl _)
  have hnodup' : m'.Nodup := h'.imp fun hab hne => absurd hab (by rw [hne]; exact lt_irrefl _)
  apply List.Perm.eq_of_pairwise ?_ h h' ((List.perm_ext_iff_of_nodup hnodup hnodup').mpr hmem)
  intro a b _ _ hab hba
  exact absurd hab (lt_asymm hba)

end Maps

section Loops
variable {σ α ε : Type} {f : σ → α → σ} {size : σ → ℕ} {bound : ℕ} {e : ε}

/-- A loop that stops with `e` once the size is beyond the bound. -/
def boundedFold (f : σ → α → σ) (size : σ → ℕ) (bound : ℕ) (e : ε) : σ → List α → Except ε σ
  | s, [] => .ok s
  | s, a :: rest => if bound < size (f s a) then .error e else boundedFold f size bound e (f s a) rest

theorem foldl_size (hgrows : ∀ s a, size s ≤ size (f s a)) (l : List α) (s : σ) : size s ≤ size (l.foldl f s) := by
  induction l generalizing s with
  | nil => exact le_rfl
  | cons a rest ih => exact (hgrows s a).trans (ih (f s a))

theorem boundedFold_eq (hgrows : ∀ s a, size s ≤ size (f s a)) (l : List α) {s : σ} (hs : size s ≤ bound) :
    boundedFold f size bound e s l =
      if size (l.foldl f s) ≤ bound then .ok (l.foldl f s) else .error e := by
  induction l generalizing s with
  | nil => exact (if_pos hs).symm
  | cons a rest ih =>
    rw [boundedFold, List.foldl_cons]
    by_cases hnext : bound < size (f s a)
    · have hmore := foldl_size hgrows rest (f s a)
      rw [if_pos hnext, if_neg (by omega)]
    · rw [if_neg hnext, ih (by omega)]

end Loops

end Monutchee.Lib
