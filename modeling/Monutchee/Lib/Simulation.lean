import Monutchee.Lib.Act

/-!
# Two programs that run side by side

The left program works on a more detailed world than the right one. They correspond if from related
worlds they end in the same way, with related values where they return and with the same error where
they raise.
-/

namespace Monutchee.Lib.Act
variable {W V ε α β γ δ : Type}

/-- `Q` relates two returns, `R` the worlds of two other ends. -/
inductive Matches (Q : α → β → W → V → Prop) (R : W → V → Prop) : Outcome ε α × W → Outcome ε β × V → Prop where
  | ret {a : α} {b : β} {w : W} {v : V} (h : Q a b w v) : Matches Q R (.ret a, w) (.ret b, v)
  | raise {e : ε} {w : W} {v : V} (h : R w v) : Matches Q R (.raise e, w) (.raise e, v)
  | crash {w : W} {v : V} (h : R w v) : Matches Q R (.crash, w) (.crash, v)

def Simulates (m : Act W ε α) (m' : Act V ε β) (w : W) (v : V) (Q : α → β → W → V → Prop) (R : W → V → Prop) : Prop :=
  Matches Q R (m w) (m' v)

variable {m : Act W ε α} {m' : Act V ε β} {w : W} {v : V} {Q : α → β → W → V → Prop} {R S : W → V → Prop}

theorem Simulates.pure {a : α} {b : β} (h : Q a b w v) :
    Simulates (Pure.pure a : Act W ε α) (Pure.pure b : Act V ε β) w v Q R := Matches.ret h

theorem Simulates.raise {e : ε} (h : R w v) :
    Simulates (Act.raise e : Act W ε α) (Act.raise e : Act V ε β) w v Q R := Matches.raise h

theorem Simulates.modify {f : W → W} {g : V → V} {Q : Unit → Unit → W → V → Prop} (h : Q () () (f w) (g v)) :
    Simulates (Act.modify f : Act W ε Unit) (Act.modify g : Act V ε Unit) w v Q R := Matches.ret h

theorem Simulates.lift {x : Except ε α} {Q : α → α → W → V → Prop} (hok : ∀ a, x = .ok a → Q a a w v)
    (herror : R w v) : Simulates (Act.lift x : Act W ε α) (Act.lift x : Act V ε α) w v Q R := by
  cases x with
  | ok a => exact .ret (hok a rfl)
  | error e => exact .raise herror

theorem Simulates.bind {f : α → Act W ε γ} {g : β → Act V ε δ} {P : γ → δ → W → V → Prop}
    (hm : Simulates m m' w v Q R) (hf : ∀ a b w' v', Q a b w' v' → Simulates (f a) (g b) w' v' P R) :
    Simulates (m >>= f) (m' >>= g) w v P R := by
  unfold Simulates at hm ⊢
  rw [bind_apply, bind_apply]
  rcases hw : m w with ⟨o, w'⟩
  rcases hv : m' v with ⟨o', v'⟩
  rw [hw, hv] at hm
  cases hm with
  | ret h => exact hf _ _ _ _ h
  | raise h => exact .raise h
  | crash h => exact .crash h

/-- A handler runs where the worlds are still related as in the program that raised. -/
theorem Simulates.attempt {g : ε → Act W ε α} {g' : ε → Act V ε β} (hm : Simulates m m' w v Q S)
    (hcrash : ∀ w' v', S w' v' → R w' v') (hg : ∀ e w' v', S w' v' → Simulates (g e) (g' e) w' v' Q R) :
    Simulates (Act.attempt m g) (Act.attempt m' g') w v Q R := by
  unfold Simulates Act.attempt at *
  rcases hw : m w with ⟨o, w'⟩
  rcases hv : m' v with ⟨o', v'⟩
  rw [hw, hv] at hm
  cases hm with
  | ret h => exact .ret h
  | raise h => exact hg _ _ _ h
  | crash h => exact .crash (hcrash _ _ h)

theorem Simulates.mono {P : α → β → W → V → Prop} (h : Simulates m m' w v Q R)
    (hQP : ∀ a b w' v', Q a b w' v' → P a b w' v') (hRS : ∀ w' v', R w' v' → S w' v') : Simulates m m' w v P S := by
  unfold Simulates at *
  generalize m w = x at h
  generalize m' v = y at h
  cases h with
  | ret h => exact .ret (hQP _ _ _ _ h)
  | raise h => exact .raise (hRS _ _ h)
  | crash h => exact .crash (hRS _ _ h)

end Monutchee.Lib.Act
