import Mathlib.Data.Finset.Card
import Mathlib.Data.List.Nodup
import Mathlib.Logic.Relation

/-!
# Lists in the order of a relation

`Ordered needs l` says that `l` has no element twice and that whatever an element needs stands
before it. Such a list is closed under the relation. Where the relation has no cycle on a finite
set, a rank falls along it, which bounds the depth of a search.
-/

namespace Monutchee.Lib
open Relation

variable {α : Type} {needs : α → α → Prop}

/-- Whatever an element needs stands before it. -/
inductive Ordered (needs : α → α → Prop) : List α → Prop
  | nil : Ordered needs []
  | append {l : List α} {a : α} (h : Ordered needs l) (hnew : a ∉ l) (hneeds : ∀ b, needs a b → b ∈ l) :
      Ordered needs (l ++ [a])

namespace Ordered

variable {l : List α} {a b : α}

theorem nodup (h : Ordered needs l) : l.Nodup := by
  induction h with
  | nil => exact List.nodup_nil
  | append _ hnew _ ih =>
    rw [List.nodup_append]
    refine ⟨ih, List.nodup_singleton _, ?_⟩
    intro x hx y hy
    rw [List.mem_singleton.mp hy]
    rintro rfl
    exact hnew hx

/-- One step stays in the list. -/
theorem needed (h : Ordered needs l) (ha : a ∈ l) (hab : needs a b) : b ∈ l := by
  induction h with
  | nil => cases ha
  | append _ _ hneeds ih =>
    rcases List.mem_append.mp ha with ha | ha
    · exact List.mem_append_left _ (ih ha)
    · rw [List.mem_singleton.mp ha] at hab
      exact List.mem_append_left _ (hneeds b hab)

theorem closed (h : Ordered needs l) (ha : a ∈ l) (hab : ReflTransGen needs a b) : b ∈ l := by
  induction hab with
  | refl => exact ha
  | tail _ hstep ih => exact h.needed ih hstep

/-- A prefix of an ordered list is ordered, and what its next element needs is in it. -/
theorem before (h : Ordered needs l) {pre post : List α} (hl : l = pre ++ a :: post) :
    Ordered needs pre ∧ ∀ b, needs a b → b ∈ pre := by
  induction h generalizing post with
  | nil => simp at hl
  | @append l c h _ hneeds ih =>
    rcases List.eq_nil_or_concat post with rfl | ⟨post', d, rfl⟩
    · obtain ⟨rfl, hc⟩ := List.append_inj' hl rfl
      obtain rfl : c = a := by simpa using hc
      exact ⟨h, hneeds⟩
    · rw [List.concat_eq_append, ← List.cons_append, ← List.append_assoc] at hl
      exact ih (List.append_inj' hl rfl).1

/-- All that an element needs, directly or not, stands before it. -/
theorem all_before (h : Ordered needs l) {pre post : List α} (hl : l = pre ++ a :: post)
    (hab : TransGen needs a b) : b ∈ pre := by
  obtain ⟨hpre, hneeds⟩ := h.before hl
  obtain ⟨c, hac, hcb⟩ := TransGen.head'_iff.mp hab
  exact hpre.closed (hneeds c hac) hcb

end Ordered

/-- Without a cycle on a list that holds all that its elements need, a rank below the length of
the list falls along the relation. -/
theorem exists_rank (l : List α) (hin : ∀ a b, needs a b → b ∈ l) (hacyclic : ∀ a ∈ l, ¬ TransGen needs a a) :
    ∃ rank : α → ℕ, (∀ a ∈ l, rank a < l.length) ∧ ∀ a b, needs a b → rank b < rank a := by
  classical
  refine ⟨fun a => (l.toFinset.filter fun b => TransGen needs a b).card, ?_, ?_⟩
  · intro a ha
    calc (l.toFinset.filter fun b => TransGen needs a b).card < l.toFinset.card := by
          apply Finset.card_lt_card
          rw [Finset.filter_ssubset]
          exact ⟨a, List.mem_toFinset.mpr ha, hacyclic a ha⟩
      _ ≤ l.length := List.toFinset_card_le l
  · intro a b hab
    have hb := hin a b hab
    apply Finset.card_lt_card
    rw [Finset.ssubset_iff_of_subset]
    · refine ⟨b, Finset.mem_filter.mpr ⟨List.mem_toFinset.mpr hb, .single hab⟩, ?_⟩
      intro hm
      exact hacyclic b hb (Finset.mem_filter.mp hm).2
    · intro x hx
      obtain ⟨hx, hbx⟩ := Finset.mem_filter.mp hx
      exact Finset.mem_filter.mpr ⟨hx, .head hab hbx⟩

/-- And a rank that falls along the relation leaves no cycle. -/
theorem acyclic_of_rank {rank : α → ℕ} (h : ∀ a b, needs a b → rank b < rank a) (a : α) : ¬ TransGen needs a a := by
  have hfall : ∀ b, TransGen needs a b → rank b < rank a := by
    intro b hab
    induction hab with
    | single hab => exact h a _ hab
    | tail _ hbc ih => exact (h _ _ hbc).trans ih
  intro haa
  exact Nat.lt_irrefl _ (hfall a haa)

/-- Nor does one that is well founded below an element. -/
theorem acyclic_of_acc {a : α} (h : Acc (fun b a => needs a b) a) : ¬ TransGen needs a a := by
  induction h with
  | intro a _ ih =>
    intro haa
    obtain ⟨c, hac, hca⟩ := TransGen.head'_iff.mp haa
    exact ih c hac (TransGen.tail' hca hac)

/-! ### The first of its kind -/

/-- The first element of a list with a property. -/
def First (p : α → Prop) (l : List α) (a : α) : Prop :=
  p a ∧ ∃ before behind, l = before ++ a :: behind ∧ ∀ b ∈ before, ¬ p b

variable {p : α → Prop} {l : List α} {a b : α}

theorem First.mem (h : First p l a) : a ∈ l := by
  obtain ⟨-, before, behind, rfl, -⟩ := h
  simp

theorem First.cons (ha : ¬ p a) : First p (a :: l) b ↔ First p l b := by
  constructor
  · rintro ⟨hb, before, behind, hl, hbefore⟩
    cases before with
    | nil =>
      obtain ⟨rfl, -⟩ := List.cons.inj hl
      exact absurd hb ha
    | cons c before =>
      obtain ⟨rfl, hrest⟩ := List.cons.inj hl
      exact ⟨hb, before, behind, hrest, fun d hd => hbefore d (List.mem_cons_of_mem _ hd)⟩
  · rintro ⟨hb, before, behind, rfl, hbefore⟩
    refine ⟨hb, a :: before, behind, rfl, ?_⟩
    intro d hd
    rcases List.mem_cons.mp hd with rfl | hd
    · exact ha
    · exact hbefore d hd

theorem First.unique (ha : First p l a) (hb : First p l b) : a = b := by
  induction l with
  | nil => exact absurd ha.mem (by simp)
  | cons c l ih =>
    by_cases hc : p c
    · have hhead : ∀ {d}, First p (c :: l) d → d = c := by
        rintro d ⟨-, before, behind, hl, hbefore⟩
        cases before with
        | nil => exact (List.cons.inj hl).1.symm
        | cons e before =>
          obtain ⟨rfl, -⟩ := List.cons.inj hl
          exact absurd hc (hbefore c (by simp))
      rw [hhead ha, hhead hb]
    · exact ih ((First.cons hc).mp ha) ((First.cons hc).mp hb)

end Monutchee.Lib
