import Mathlib.Logic.Relation
import Mathlib.Data.List.Basic

/-!
# Regular expressions with anchors and lookahead

An expression is read over a whole subject `s`, between two positions of it, so that the
anchors and the lookahead see what is left and right of the match. The relation says that
some way of matching exists; which one a backtracking matcher finds first plays no role
for a pattern that only tests a subject.
-/

namespace Monutchee.Lib

inductive Regex (α : Type) where
  | epsilon
  | char (p : α → Bool)
  | seq (a b : Regex α)
  | alt (a b : Regex α)
  | star (a : Regex α)
  | start
  | finish
  | notAhead (a : Regex α)

namespace Regex

variable {α : Type}

/-- `a` matches the part of `s` from position `i` up to position `j`. -/
def Matches (s : List α) : Regex α → ℕ → ℕ → Prop
  | .epsilon, i, j => i = j
  | .char p, i, j => j = i + 1 ∧ ∃ c, s[i]? = some c ∧ p c = true
  | .seq a b, i, j => ∃ k, Matches s a i k ∧ Matches s b k j
  | .alt a b, i, j => Matches s a i j ∨ Matches s b i j
  | .star a, i, j => Relation.ReflTransGen (Matches s a) i j
  | .start, i, j => i = j ∧ i = 0
  | .finish, i, j => i = j ∧ i = s.length
  | .notAhead a, i, j => i = j ∧ ∀ k, ¬ Matches s a i k

/-- A pattern is searched for: it holds of a subject when it matches somewhere in it. -/
def test (a : Regex α) (s : List α) : Prop := ∃ i j, Matches s a i j

/-- One or more. -/
def plus (a : Regex α) : Regex α := .seq a (.star a)

/-- Exactly `n` times. -/
def times (a : Regex α) : ℕ → Regex α
  | 0 => .epsilon
  | n + 1 => .seq a (times a n)

/-- Zero or one. -/
def optional (a : Regex α) : Regex α := .alt a .epsilon

variable {s : List α} {p : α → Bool}

theorem matches_char {i : ℕ} (h : i < s.length) (hp : p s[i] = true) :
    Matches s (.char p) i (i + 1) :=
  ⟨rfl, s[i], List.getElem?_eq_getElem h, hp⟩

/-- A repeated character class runs to the end of a subject that keeps to it. -/
theorem matches_star_char (hs : ∀ c ∈ s, p c = true) (i : ℕ) (hi : i ≤ s.length) :
    Matches s (.star (.char p)) i s.length := by
  have step : ∀ n i, i + n = s.length → Matches s (.star (.char p)) i s.length := by
    intro n
    induction n with
    | zero =>
      intro i h
      have : i = s.length := by omega
      rw [this]
      exact .refl
    | succ n ih =>
      intro i h
      have hlt : i < s.length := by omega
      exact .head (matches_char hlt (hs _ (List.getElem_mem hlt))) (ih (i + 1) (by omega))
  exact step (s.length - i) i (by omega)

theorem matches_plus_char (hs : ∀ c ∈ s, p c = true) (h : s ≠ []) :
    Matches s (.plus (.char p)) 0 s.length := by
  have hlt : 0 < s.length := List.length_pos_iff.mpr h
  exact ⟨1, matches_char hlt (hs _ (List.getElem_mem hlt)), matches_star_char hs 1 hlt⟩

theorem matches_times_char (hs : ∀ c ∈ s, p c = true) (n i : ℕ) (h : i + n = s.length) :
    Matches s (.times (.char p) n) i s.length := by
  induction n generalizing i with
  | zero =>
    show i = s.length
    omega
  | succ n ih =>
    have hlt : i < s.length := by omega
    exact ⟨i + 1, matches_char hlt (hs _ (List.getElem_mem hlt)), ih (i + 1) (by omega)⟩

/-- A lookahead for `a` somewhere after characters of a class fails as soon as `a` matches nowhere. -/
theorem matches_notAhead {a : Regex α} {i : ℕ} (h : ∀ k j, ¬ Matches s a k j) :
    Matches s (.notAhead (.seq (.star (.char p)) a)) i i := by
  refine ⟨rfl, ?_⟩
  rintro j ⟨k, -, ha⟩
  exact h k j ha

/-- What a repeated character class runs over. -/
theorem matches_star_char_iff {i j : ℕ} :
    Matches s (.star (.char p)) i j ↔ i ≤ j ∧ ∀ k, i ≤ k → k < j → ∃ c, s[k]? = some c ∧ p c = true := by
  constructor
  · intro h
    induction h with
    | refl => exact ⟨Nat.le_refl _, fun k hi hk => by omega⟩
    | @tail m n _ hstep ih =>
      obtain ⟨rfl, hc⟩ := hstep
      refine ⟨by omega, ?_⟩
      intro k hi hk
      by_cases hkm : k < m
      · exact ih.2 k hi hkm
      · obtain rfl : k = m := by omega
        exact hc
  · rintro ⟨hij, h⟩
    induction hij with
    | refl => exact .refl
    | @step m him ih =>
      have hm := h m him (Nat.lt_succ_self m)
      exact .tail (ih fun k hi hk => h k hi (by omega)) ⟨rfl, hm⟩

end Regex

end Monutchee.Lib
