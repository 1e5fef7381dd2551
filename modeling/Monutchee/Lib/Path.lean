import Mathlib.Logic.Relation

/-!
# Invariants along a path of steps

A run is a path of steps `R`. The first rule carries a property along a path. In the
second the property is only claimed of states that meet a condition `H` on their
history; a condition on a history that grows holds of every earlier state as soon as it
holds of the last one.
-/

namespace Monutchee.Lib

open Relation

variable {α : Type} {R : α → α → Prop} {H I : α → Prop} {a b : α}

theorem path_keeps (step : ∀ a b, R a b → I a → I b) (p : ReflTransGen R a b) (h : I a) : I b := by
  induction p with
  | refl => exact h
  | tail _ hs ih => exact step _ _ hs ih

theorem path_back (back : ∀ a b, R a b → H b → H a) (p : ReflTransGen R a b) (h : H b) : H a := by
  induction p with
  | refl => exact h
  | tail _ hs ih => exact ih (back _ _ hs h)

theorem path_keeps_while (back : ∀ a b, R a b → H b → H a)
    (step : ∀ a b, R a b → H b → I a → I b) (p : ReflTransGen R a b) (hb : H b) (h : I a) :
    I b := by
  induction p with
  | refl => exact h
  | tail _ hs ih => exact step _ _ hs hb (ih (back _ _ hs hb))

end Monutchee.Lib
