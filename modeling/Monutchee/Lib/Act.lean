import Mathlib.Logic.Relation

/-!
# Effect programs that return, raise or are cut off

A program acts on a world and ends in one of three ways: it returns a value, it
raises an error that a handler may catch, or it is cut off between two effects,
which no handler sees. The rules below follow a program through its binds and
handlers. `Within R` says that whatever the program does, however it ends, stays
inside the relation `R`; since a program may be cut off before any of its
effects, this covers every intermediate world and not only the last one.
-/

namespace Monutchee.Lib

/-- How a program ends. -/
inductive Outcome (ε α : Type) where
  | ret (a : α)
  | raise (e : ε)
  | crash
  deriving DecidableEq, Repr

def Act (W ε α : Type) := W → Outcome ε α × W

namespace Act
variable {W ε α β : Type}

protected def pure (a : α) : Act W ε α := fun w => (.ret a, w)

protected def bind (m : Act W ε α) (f : α → Act W ε β) : Act W ε β := fun w =>
  match m w with
  | (.ret a, w') => f a w'
  | (.raise e, w') => (.raise e, w')
  | (.crash, w') => (.crash, w')

instance : Monad (Act W ε) where
  pure := Act.pure
  bind := Act.bind

def raise (e : ε) : Act W ε α := fun w => (.raise e, w)

def gets (f : W → α) : Act W ε α := fun w => (.ret (f w), w)

def modify (f : W → W) : Act W ε Unit := fun w => (.ret (), f w)

def require (b : Bool) (e : ε) : Act W ε Unit := if b then Act.pure () else raise e

/-- Run a program and handle its error; a cut is not handled. -/
def attempt (m : Act W ε α) (h : ε → Act W ε α) : Act W ε α := fun w =>
  match m w with
  | (.ret a, w') => (.ret a, w')
  | (.raise e, w') => h e w'
  | (.crash, w') => (.crash, w')

def each (f : β → Act W ε Unit) : List β → Act W ε Unit
  | [] => Act.pure ()
  | b :: bs => Act.bind (f b) fun _ => each f bs

/-- An error value as a program. -/
def lift : Except ε α → Act W ε α
  | .ok a => Act.pure a
  | .error e => raise e

/-- The next answer of a list and the rest; behind the end every answer is the default. -/
def nextAnswer {A : Type} (fallback : A) : List A → A × List A
  | [] => (fallback, [])
  | a :: rest => (a, rest)

/-! ### Evaluation -/

@[simp] theorem pure_apply (a : α) (w : W) : (pure a : Act W ε α) w = (.ret a, w) := rfl

@[simp] theorem raise_apply (e : ε) (w : W) : (raise e : Act W ε α) w = (.raise e, w) := rfl

@[simp] theorem gets_apply (f : W → α) (w : W) :
    (gets f : Act W ε α) w = (.ret (f w), w) := rfl

@[simp] theorem modify_apply (f : W → W) (w : W) :
    (modify f : Act W ε Unit) w = (.ret (), f w) := rfl

theorem bind_apply (m : Act W ε α) (f : α → Act W ε β) (w : W) :
    (m >>= f) w = match m w with
      | (.ret a, w') => f a w'
      | (.raise e, w') => (.raise e, w')
      | (.crash, w') => (.crash, w') := rfl

theorem bind_of_ret {m : Act W ε α} {f : α → Act W ε β} {w w' : W} {a : α}
    (h : m w = (.ret a, w')) : (m >>= f) w = f a w' := by
  rw [bind_apply, h]

theorem bind_of_raise {m : Act W ε α} {f : α → Act W ε β} {w w' : W} {e : ε}
    (h : m w = (.raise e, w')) : (m >>= f) w = (.raise e, w') := by
  rw [bind_apply, h]

theorem bind_of_crash {m : Act W ε α} {f : α → Act W ε β} {w w' : W}
    (h : m w = (.crash, w')) : (m >>= f) w = (.crash, w') := by
  rw [bind_apply, h]

@[simp] theorem gets_bind (g : W → α) (f : α → Act W ε β) (w : W) :
    (gets g >>= f) w = f (g w) w := rfl

@[simp] theorem modify_bind (g : W → W) (f : Unit → Act W ε β) (w : W) :
    (modify g >>= f) w = f () (g w) := rfl

@[simp] theorem raise_bind (e : ε) (f : α → Act W ε β) (w : W) :
    (raise e >>= f) w = (.raise e, w) := rfl

@[simp] theorem pure_bind_apply (a : α) (f : α → Act W ε β) (w : W) :
    ((pure a : Act W ε α) >>= f) w = f a w := rfl

theorem bind_assoc {γ : Type} (m : Act W ε α) (f : α → Act W ε β) (g : β → Act W ε γ) :
    (m >>= f) >>= g = m >>= fun a => f a >>= g := by
  funext w
  rw [bind_apply, bind_apply, bind_apply]
  rcases m w with ⟨o, w'⟩
  cases o with
  | ret a => rfl
  | raise e => rfl
  | crash => rfl

theorem pure_bind (a : α) (f : α → Act W ε β) : (pure a : Act W ε α) >>= f = f a := rfl

theorem require_of_true {b : Bool} {e : ε} {w : W} (h : b = true) :
    (require b e : Act W ε Unit) w = (.ret (), w) := by
  rw [require, if_pos h]
  rfl

theorem require_of_false {b : Bool} {e : ε} {w : W} (h : b = false) :
    (require b e : Act W ε Unit) w = (.raise e, w) := by
  rw [require, if_neg (by simp [h])]
  rfl

@[simp] theorem lift_ok (a : α) (w : W) : (lift (.ok a) : Act W ε α) w = (.ret a, w) := rfl

@[simp] theorem lift_error (e : ε) (w : W) :
    (lift (.error e) : Act W ε α) w = (.raise e, w) := rfl

/-! ### Inversion -/

theorem bind_ret {m : Act W ε α} {f : α → Act W ε β} {w w' : W} {b : β}
    (h : (m >>= f) w = (.ret b, w')) :
    ∃ a w₁, m w = (.ret a, w₁) ∧ f a w₁ = (.ret b, w') := by
  rw [bind_apply] at h
  rcases hm : m w with ⟨o, w₁⟩
  rw [hm] at h
  cases o with
  | ret a => exact ⟨a, w₁, rfl, h⟩
  | raise e => simp at h
  | crash => simp at h

theorem bind_raise {m : Act W ε α} {f : α → Act W ε β} {w w' : W} {e : ε}
    (h : (m >>= f) w = (.raise e, w')) :
    (∃ a w₁, m w = (.ret a, w₁) ∧ f a w₁ = (.raise e, w')) ∨ m w = (.raise e, w') := by
  rw [bind_apply] at h
  rcases hm : m w with ⟨o, w₁⟩
  rw [hm] at h
  cases o with
  | ret a => exact .inl ⟨a, w₁, rfl, h⟩
  | raise e' =>
    injection h with he hw
    injection he with he
    subst he hw
    exact .inr rfl
  | crash => simp at h

/-- A program that does not return passes its end on. -/
theorem bind_stopped {m : Act W ε α} {f : α → Act W ε β} {w : W} (h : ∀ a, (m w).1 ≠ .ret a) :
    (∀ b, ((m >>= f) w).1 ≠ .ret b) ∧ ((m >>= f) w).2 = (m w).2 := by
  rw [bind_apply]
  rcases hm : m w with ⟨o, w'⟩
  rw [hm] at h
  cases o with
  | ret a => exact absurd rfl (h a)
  | raise e => exact ⟨by simp, rfl⟩
  | crash => exact ⟨by simp, rfl⟩

theorem require_ret {b : Bool} {e : ε} {w w' : W} {u : Unit}
    (h : (require b e : Act W ε Unit) w = (.ret u, w')) : b = true ∧ w' = w := by
  cases b with
  | true => exact ⟨rfl, (congrArg Prod.snd h).symm⟩
  | false => rw [require_of_false rfl] at h; simp at h

theorem lift_ret {x : Except ε α} {w w' : W} {a : α}
    (h : (lift x : Act W ε α) w = (.ret a, w')) : x = .ok a ∧ w' = w := by
  cases x with
  | ok b =>
    injection h with hr hw
    injection hr with hb
    exact ⟨by rw [hb], hw.symm⟩
  | error e => simp at h

/-! ### Staying inside a relation -/

/-- However the program ends from `w`, it ends in a world related to `w`. -/
def Within (R : W → W → Prop) (m : Act W ε α) (w : W) : Prop := R w (m w).2

variable {R : W → W → Prop}

theorem Within.result {m : Act W ε α} {w w' : W} {o : Outcome ε α} (h : Within R m w)
    (hm : m w = (o, w')) : R w w' := by
  unfold Within at h
  rw [hm] at h
  exact h

theorem Within.gets (hr : ∀ w, R w w) (f : W → α) (w : W) :
    Within R (Act.gets f : Act W ε α) w := hr w

theorem Within.require (hr : ∀ w, R w w) (b : Bool) (e : ε) (w : W) :
    Within R (Act.require b e : Act W ε Unit) w := by
  cases b with
  | true => exact hr w
  | false => exact hr w

theorem Within.lift (hr : ∀ w, R w w) (x : Except ε α) (w : W) :
    Within R (Act.lift x : Act W ε α) w := by
  cases x with
  | ok a => exact hr w
  | error e => exact hr w

theorem Within.bind (ht : ∀ a b c, R a b → R b c → R a c) {m : Act W ε α}
    {f : α → Act W ε β} {w : W} (hm : Within R m w)
    (hf : ∀ a w', m w = (.ret a, w') → Within R (f a) w') : Within R (m >>= f) w := by
  unfold Within at hm ⊢
  rw [bind_apply]
  rcases h : m w with ⟨o, w'⟩
  rw [h] at hm
  cases o with
  | ret a => exact ht _ _ _ hm (hf a w' h)
  | raise e => exact hm
  | crash => exact hm

theorem Within.attempt (ht : ∀ a b c, R a b → R b c → R a c) {m : Act W ε α}
    {g : ε → Act W ε α} {w : W} (hm : Within R m w)
    (hg : ∀ e w', m w = (.raise e, w') → Within R (g e) w') :
    Within R (Act.attempt m g) w := by
  unfold Within Act.attempt at *
  rcases h : m w with ⟨o, w'⟩
  rw [h] at hm
  cases o with
  | ret a => exact hm
  | raise e => exact ht _ _ _ hm (hg e w' h)
  | crash => exact hm

/-! ### Postconditions -/

/-- From `w` the program stays inside `R`, and if it returns then the postcondition holds. -/
structure Ensures (R : W → W → Prop) (m : Act W ε α) (w : W) (Q : α → W → Prop) : Prop where
  within : Within R m w
  post : ∀ a w', m w = (.ret a, w') → Q a w'

variable {P Q : α → W → Prop} {w : W}

theorem Ensures.mono {m : Act W ε α} (h : Ensures R m w P) (hPQ : ∀ a w', P a w' → Q a w') :
    Ensures R m w Q := by
  refine ⟨h.within, ?_⟩
  intro a w' hm
  exact hPQ a w' (h.post a w' hm)

theorem Ensures.pure (hr : ∀ w, R w w) {a : α} (h : Q a w) :
    Ensures R (Pure.pure a : Act W ε α) w Q := by
  refine ⟨hr w, ?_⟩
  intro b w' hb
  injection hb with hr hw
  injection hr with hab
  subst hab hw
  exact h

theorem Ensures.raise (hr : ∀ w, R w w) {e : ε} : Ensures R (Act.raise e : Act W ε α) w Q := by
  refine ⟨hr w, ?_⟩
  intro b w' hb
  simp at hb

theorem Ensures.require (hr : ∀ w, R w w) {b : Bool} {e : ε} {Q : Unit → W → Prop}
    (h : b = true → Q () w) : Ensures R (Act.require b e : Act W ε Unit) w Q := by
  refine ⟨Within.require hr b e w, ?_⟩
  intro u w' hu
  obtain ⟨hb, rfl⟩ := require_ret hu
  exact h hb

theorem Ensures.lift (hr : ∀ w, R w w) {x : Except ε α} (h : ∀ a, x = .ok a → Q a w) :
    Ensures R (Act.lift x : Act W ε α) w Q := by
  refine ⟨Within.lift hr x w, ?_⟩
  intro a w' ha
  cases x with
  | ok b =>
    injection ha with hr hw
    injection hr with hab
    subst hab hw
    exact h b rfl
  | error e => simp at ha

theorem Ensures.bind (ht : ∀ a b c, R a b → R b c → R a c) {m : Act W ε α}
    {f : α → Act W ε β} {Q : β → W → Prop} (hm : Ensures R m w P)
    (hf : ∀ a w', P a w' → Ensures R (f a) w' Q) : Ensures R (m >>= f) w Q := by
  refine ⟨Within.bind ht hm.within fun a w' h => (hf a w' (hm.post a w' h)).within, ?_⟩
  intro b w' h
  obtain ⟨a, w₁, h₁, h₂⟩ := bind_ret h
  exact (hf a w₁ (hm.post a w₁ h₁)).post b w' h₂

/-- A handler that does not return adds nothing to the postcondition. -/
theorem Ensures.attempt (ht : ∀ a b c, R a b → R b c → R a c) {m : Act W ε α}
    {g : ε → Act W ε α} (hm : Ensures R m w Q)
    (hg : ∀ e w', m w = (.raise e, w') → Ensures R (g e) w' Q) :
    Ensures R (Act.attempt m g) w Q := by
  refine ⟨Within.attempt ht hm.within fun e w' h => (hg e w' h).within, ?_⟩
  intro a w' h
  unfold Act.attempt at h
  rcases ho : m w with ⟨o, w₁⟩
  rw [ho] at h
  cases o with
  | ret b => exact hm.post a w' (ho.trans h)
  | raise e => exact (hg e w₁ ho).post a w' h
  | crash => simp at h

/-- The loop rule: an invariant over the elements already handled. -/
theorem Ensures.each_mem (hr : ∀ w, R w w) (ht : ∀ a b c, R a b → R b c → R a c)
    {f : β → Act W ε Unit} (I : List β → W → Prop) {bs : List β}
    (hf : ∀ done b w, b ∈ bs → I done w → Ensures R (f b) w fun _ w' => I (done ++ [b]) w')
    (done : List β) (hw : I done w) :
    Ensures R (Act.each f bs) w fun _ w' => I (done ++ bs) w' := by
  induction bs generalizing done w with
  | nil => exact Ensures.pure hr (by simpa using hw)
  | cons b bs ih =>
    apply Ensures.bind ht (hf done b w (List.mem_cons_self ..) hw)
    intro _ w' hb
    have hf' := fun done x w hx => hf done x w (List.mem_cons_of_mem _ hx)
    simpa using ih hf' (done ++ [b]) hb

/-! ### Programs that return -/

/-- The program returns, in a world that meets the condition. -/
def Completes (C : W → Prop) (m : Act W ε α) (w : W) : Prop := ∃ a w', m w = (.ret a, w') ∧ C w'

variable {C : W → Prop}

theorem Completes.bind {m : Act W ε α} {f : α → Act W ε β} (hm : Completes C m w)
    (hf : ∀ a w', m w = (.ret a, w') → C w' → Completes C (f a) w') : Completes C (m >>= f) w := by
  obtain ⟨a, w₁, h₁, hc₁⟩ := hm
  obtain ⟨b, w₂, h₂, hc₂⟩ := hf a w₁ h₁ hc₁
  exact ⟨b, w₂, (bind_of_ret h₁).trans h₂, hc₂⟩

theorem Completes.seq {m : Act W ε α} {f : α → Act W ε β} (hm : Completes C m w)
    (hf : ∀ a w', C w' → Completes C (f a) w') : Completes C (m >>= f) w :=
  hm.bind fun a w' _ => hf a w'

theorem Completes.attempt {m : Act W ε α} {h : ε → Act W ε α} (hm : Completes C m w) :
    Completes C (Act.attempt m h) w := by
  obtain ⟨a, w₁, h₁, hc₁⟩ := hm
  refine ⟨a, w₁, ?_, hc₁⟩
  unfold Act.attempt
  rw [h₁]

theorem Completes.pure (a : α) (hw : C w) : Completes C (Pure.pure a : Act W ε α) w :=
  ⟨a, w, rfl, hw⟩

theorem Completes.gets {g : W → α} {f : α → Act W ε β} (h : Completes C (f (g w)) w) :
    Completes C (Act.gets g >>= f) w := h

theorem Completes.modify {g : W → W} (h : C (g w)) :
    Completes C (Act.modify g : Act W ε Unit) w := ⟨(), g w, rfl, h⟩

theorem Completes.require {b : Bool} {e : ε} (hb : b = true) (hw : C w) :
    Completes C (Act.require b e : Act W ε Unit) w := ⟨(), w, require_of_true hb, hw⟩

/-! ### Programs that nothing cuts off -/

def Uncut (m : Act W ε α) : Prop := ∀ w, (m w).1 ≠ .crash

theorem Uncut.pure (a : α) : Uncut (Pure.pure a : Act W ε α) := fun _ => by simp

theorem Uncut.raise (e : ε) : Uncut (Act.raise e : Act W ε α) := fun _ => by simp

theorem Uncut.require (b : Bool) (e : ε) : Uncut (Act.require b e : Act W ε Unit) := by
  cases b with
  | true => exact Uncut.pure ()
  | false => exact Uncut.raise e

theorem Uncut.lift (x : Except ε α) : Uncut (Act.lift x : Act W ε α) := by
  cases x with
  | ok a => exact Uncut.pure a
  | error e => exact Uncut.raise e

theorem Uncut.bind {m : Act W ε α} {f : α → Act W ε β} (hm : Uncut m) (hf : ∀ a, Uncut (f a)) :
    Uncut (m >>= f) := by
  intro w
  rw [bind_apply]
  have h := hm w
  rcases hw : m w with ⟨o, w'⟩
  rw [hw] at h
  cases o with
  | ret a => exact hf a w'
  | raise e => simp
  | crash => exact absurd rfl h

theorem Uncut.attempt {m : Act W ε α} {g : ε → Act W ε α} (hm : Uncut m) (hg : ∀ e, Uncut (g e)) :
    Uncut (Act.attempt m g) := by
  intro w
  have h := hm w
  unfold Act.attempt
  rcases hw : m w with ⟨o, w'⟩
  rw [hw] at h
  cases o with
  | ret a => simp
  | raise e => exact hg e w'
  | crash => exact absurd rfl h

/-! ### Keeping an invariant -/

/-- The program ends in a world with the invariant, however it ends, and if it returns then
the postcondition holds. -/
structure Upholds (I : W → Prop) (m : Act W ε α) (w : W) (Q : α → W → Prop) : Prop where
  kept : I (m w).2
  post : ∀ a w', m w = (.ret a, w') → Q a w'

variable {I : W → Prop}

theorem Upholds.mono {m : Act W ε α} (h : Upholds I m w P) (hPQ : ∀ a w', I w' → P a w' → Q a w') :
    Upholds I m w Q := by
  refine ⟨h.kept, ?_⟩
  intro a w' hm
  have hk := h.kept
  rw [hm] at hk
  exact hPQ a w' hk (h.post a w' hm)

theorem Upholds.pure {a : α} (hw : I w) (h : Q a w) : Upholds I (Pure.pure a : Act W ε α) w Q := by
  refine ⟨hw, ?_⟩
  intro b w' hb
  injection hb with hr hw'
  injection hr with hab
  subst hab hw'
  exact h

theorem Upholds.raise {e : ε} (hw : I w) : Upholds I (Act.raise e : Act W ε α) w Q := by
  refine ⟨hw, ?_⟩
  intro b w' hb
  simp at hb

theorem Upholds.modify {f : W → W} {Q : Unit → W → Prop} (hw : I (f w)) (h : Q () (f w)) :
    Upholds I (Act.modify f : Act W ε Unit) w Q := by
  refine ⟨hw, ?_⟩
  intro u w' hu
  injection hu with _ hw'
  subst hw'
  exact h

theorem Upholds.require {b : Bool} {e : ε} {Q : Unit → W → Prop} (hw : I w)
    (h : b = true → Q () w) : Upholds I (Act.require b e : Act W ε Unit) w Q := by
  refine ⟨?_, ?_⟩
  · cases b with
    | true => exact hw
    | false => exact hw
  · intro u w' hu
    obtain ⟨hb, rfl⟩ := require_ret hu
    exact h hb

theorem Upholds.lift {x : Except ε α} (hw : I w) (h : ∀ a, x = .ok a → Q a w) :
    Upholds I (Act.lift x : Act W ε α) w Q := by
  cases x with
  | ok a => exact Upholds.pure hw (h a rfl)
  | error e => exact Upholds.raise hw

theorem Upholds.bind {m : Act W ε α} {f : α → Act W ε β} {Q : β → W → Prop} (hm : Upholds I m w P)
    (hf : ∀ a w', I w' → P a w' → Upholds I (f a) w' Q) : Upholds I (m >>= f) w Q := by
  have hk := hm.kept
  refine ⟨?_, ?_⟩
  · rw [bind_apply]
    rcases h : m w with ⟨o, w'⟩
    rw [h] at hk
    cases o with
    | ret a => exact (hf a w' hk (hm.post a w' h)).kept
    | raise e => exact hk
    | crash => exact hk
  · intro b w' h
    obtain ⟨a, w₁, h₁, h₂⟩ := bind_ret h
    rw [h₁] at hk
    exact (hf a w₁ hk (hm.post a w₁ h₁)).post b w' h₂

theorem Upholds.after {m : Act W ε α} {f : α → Act W ε β} {Q : β → W → Prop} {a : α} {w' : W}
    (hm : m w = (.ret a, w')) (h : Upholds I (f a) w' Q) : Upholds I (m >>= f) w Q := by
  have hrun := bind_of_ret (f := f) hm
  exact ⟨hrun ▸ h.kept, fun b w₁ hb => h.post b w₁ (hrun.symm.trans hb)⟩

theorem Upholds.attempt {m : Act W ε α} {g : ε → Act W ε α} (hm : Upholds I m w Q)
    (hg : ∀ e w', I w' → m w = (.raise e, w') → Upholds I (g e) w' Q) :
    Upholds I (Act.attempt m g) w Q := by
  have hk := hm.kept
  rcases ho : m w with ⟨o, w'⟩
  rw [ho] at hk
  unfold Act.attempt
  cases o with
  | ret a =>
    refine ⟨by rw [ho]; exact hk, ?_⟩
    intro b w₁ h
    rw [ho] at h
    exact hm.post b w₁ (ho.trans h)
  | raise e =>
    have hge := hg e w' hk ho
    refine ⟨by rw [ho]; exact hge.kept, ?_⟩
    intro b w₁ h
    rw [ho] at h
    exact hge.post b w₁ h
  | crash =>
    refine ⟨by rw [ho]; exact hk, ?_⟩
    intro b w₁ h
    rw [ho] at h
    simp at h

/-- The loop rule: an invariant over the elements already handled. -/
theorem Upholds.each_mem {f : β → Act W ε Unit} (J : List β → W → Prop) {bs : List β}
    (hf : ∀ done b w, b ∈ bs → I w → J done w → Upholds I (f b) w fun _ w' => J (done ++ [b]) w')
    (done : List β) (hw : I w) (hj : J done w) :
    Upholds I (Act.each f bs) w fun _ w' => J (done ++ bs) w' := by
  induction bs generalizing done w with
  | nil => exact Upholds.pure hw (by simpa using hj)
  | cons b bs ih =>
    apply Upholds.bind (hf done b w (List.mem_cons_self ..) hw hj)
    intro _ w' hw' hb
    have hf' := fun done x w hx => hf done x w (List.mem_cons_of_mem _ hx)
    simpa using ih hf' (done ++ [b]) hw' hb

theorem Upholds.get {g : W → α} {f : α → Act W ε β} {Q : β → W → Prop}
    (h : Upholds I (f (g w)) w Q) : Upholds I (Act.gets g >>= f) w Q := ⟨h.kept, h.post⟩

theorem Upholds.each {f : β → Act W ε Unit} {bs : List β} (hw : I w)
    (hf : ∀ b ∈ bs, ∀ w, I w → Upholds I (f b) w fun _ _ => True) :
    Upholds I (Act.each f bs) w fun _ _ => True :=
  Upholds.each_mem (fun _ _ => True) (fun _ b w hb hw _ => hf b hb w hw) [] hw trivial

/-- What is kept under a stronger invariant. -/
theorem Upholds.weaken {J : W → Prop} {m : Act W ε α} (h : Upholds I m w Q) (hIJ : ∀ w, I w → J w) :
    Upholds J m w fun a w' => I w' ∧ Q a w' := by
  refine ⟨hIJ _ h.kept, ?_⟩
  intro a w' hm
  have hk := h.kept
  rw [hm] at hk
  exact ⟨hk, h.post a w' hm⟩

/-! ### Both ends of a program -/

/-- Nothing cuts the program off; what it returns meets `Q` and what it raises meets `E`. -/
def Ends (m : Act W ε α) (w : W) (Q : α → W → Prop) (E : ε → W → Prop) : Prop :=
  (m w).1 ≠ .crash ∧ (∀ a w', m w = (.ret a, w') → Q a w') ∧ ∀ e w', m w = (.raise e, w') → E e w'

variable {E : ε → W → Prop}

theorem Ends.ret {m : Act W ε α} {w' : W} {a : α} (hm : m w = (.ret a, w')) (h : Q a w') : Ends m w Q E := by
  refine ⟨by rw [hm]; simp, ?_, ?_⟩
  · intro b w₁ hb
    rw [hm] at hb
    cases hb
    exact h
  · intro e w₁ he
    rw [hm] at he
    cases he

theorem Ends.raised {m : Act W ε α} {w' : W} {e : ε} (hm : m w = (.raise e, w')) (h : E e w') : Ends m w Q E := by
  refine ⟨by rw [hm]; simp, ?_, ?_⟩
  · intro b w₁ hb
    rw [hm] at hb
    cases hb
  · intro e' w₁ he
    rw [hm] at he
    cases he
    exact h

theorem Ends.mono {m : Act W ε α} {F : ε → W → Prop} (h : Ends m w P F) (hPQ : ∀ a w', P a w' → Q a w')
    (hFE : ∀ e w', F e w' → E e w') : Ends m w Q E :=
  ⟨h.1, fun a w' hm => hPQ a w' (h.2.1 a w' hm), fun e w' hm => hFE e w' (h.2.2 e w' hm)⟩

theorem Ends.bind {m : Act W ε α} {f : α → Act W ε β} {Q : β → W → Prop} (hm : Ends m w P E)
    (hf : ∀ a w', P a w' → Ends (f a) w' Q E) : Ends (m >>= f) w Q E := by
  obtain ⟨hcut, hret, hraise⟩ := hm
  unfold Ends
  rw [bind_apply]
  rcases ho : m w with ⟨o, w'⟩
  cases o with
  | ret a => exact hf a w' (hret a w' ho)
  | raise e => exact (Ends.raised (m := Act.raise e) rfl (hraise e w' ho) : Ends (Act.raise e : Act W ε β) w' Q E)
  | crash => exact absurd (by rw [ho]) hcut

theorem Ends.get {g : W → α} {f : α → Act W ε β} {Q : β → W → Prop} (h : Ends (f (g w)) w Q E) :
    Ends (Act.gets g >>= f) w Q E := h

theorem Ends.require {b : Bool} {e : ε} {f : Unit → Act W ε β} {Q : β → W → Prop} (htrue : b = true → Ends (f ()) w Q E)
    (hfalse : b = false → E e w) : Ends (Act.require b e >>= f) w Q E := by
  cases b with
  | true => exact htrue rfl
  | false => exact Ends.raised (bind_of_raise (require_of_false rfl)) (hfalse rfl)

theorem Ends.modify {g : W → W} {f : Unit → Act W ε β} {Q : β → W → Prop} (h : Ends (f ()) (g w) Q E) :
    Ends (Act.modify g >>= f) w Q E := h

theorem Ends.lift {x : Except ε α} {f : α → Act W ε β} {Q : β → W → Prop} (hok : ∀ a, x = .ok a → Ends (f a) w Q E)
    (herror : ∀ e, x = .error e → E e w) : Ends (Act.lift x >>= f) w Q E := by
  cases x with
  | ok a => exact hok a rfl
  | error e => exact Ends.raised (raise_bind e f w) (herror e rfl)

/-- The rule for a fold: an invariant over the elements already handled. -/
theorem Ends.foldlM_split {γ : Type} {f : α → γ → Act W ε α} (I : List γ → α → W → Prop) {all : List γ}
    (hf : ∀ done x rest a w, all = done ++ x :: rest → I done a w → Ends (f a x) w (I (done ++ [x])) E) :
    ∀ {xs done : List γ} {a : α} {w : W}, all = done ++ xs → I done a w → Ends (xs.foldlM f a) w (I all) E := by
  intro xs
  induction xs with
  | nil =>
    intro done a w hall hw
    rw [hall, List.append_nil]
    exact Ends.ret rfl hw
  | cons x xs ih =>
    intro done a w hall hw
    apply Ends.bind (hf done x xs a w hall hw)
    intro a' w' hx
    exact ih (by simp [hall]) hx

theorem Ends.foldlM {γ : Type} {f : α → γ → Act W ε α} (I : List γ → α → W → Prop) {xs : List γ}
    (hf : ∀ done x a w, x ∈ xs → I done a w → Ends (f a x) w (I (done ++ [x])) E) (a : α)
    (hw : I [] a w) : Ends (xs.foldlM f a) w (I xs) E := by
  apply Ends.foldlM_split I _ (List.nil_append xs).symm hw
  intro done x rest a w hxs
  exact hf done x a w (by simp [hxs])

theorem Ends.each_mem {f : β → Act W ε Unit} (J : List β → W → Prop) {bs : List β}
    (hf : ∀ done b w, b ∈ bs → J done w → Ends (f b) w (fun _ w' => J (done ++ [b]) w') E) (done : List β)
    (hj : J done w) : Ends (Act.each f bs) w (fun _ w' => J (done ++ bs) w') E := by
  induction bs generalizing done w with
  | nil => exact @Ends.ret _ _ _ _ _ _ _ w () rfl (by simpa using hj)
  | cons b bs ih =>
    apply Ends.bind (hf done b w (List.mem_cons_self ..) hj)
    intro _ w' hb
    have hf' := fun done x w hx => hf done x w (List.mem_cons_of_mem _ hx)
    simpa using ih hf' (done ++ [b]) hb

/-! ### Both ends of a program that may be cut off -/

/-- What the program returns meets `Q`, and what it raises meets `E`. -/
structure Meets (m : Act W ε α) (w : W) (Q : α → W → Prop) (E : ε → W → Prop) : Prop where
  returned : ∀ a w', m w = (.ret a, w') → Q a w'
  raised : ∀ e w', m w = (.raise e, w') → E e w'

theorem Meets.ret {m : Act W ε α} {w' : W} {a : α} (hm : m w = (.ret a, w')) (h : Q a w') : Meets m w Q E :=
  ⟨(@Ends.ret _ _ _ _ _ E _ _ _ hm h).2.1, (@Ends.ret _ _ _ _ _ E _ _ _ hm h).2.2⟩

theorem Meets.raise {m : Act W ε α} {w' : W} {e : ε} (hm : m w = (.raise e, w')) (h : E e w') : Meets m w Q E :=
  ⟨(@Ends.raised _ _ _ Q _ _ _ _ _ hm h).2.1, (@Ends.raised _ _ _ Q _ _ _ _ _ hm h).2.2⟩

theorem Meets.cut {m : Act W ε α} {w' : W} (hm : m w = (.crash, w')) : Meets m w Q E := by
  refine ⟨?_, ?_⟩
  · intro a w₁ h
    rw [hm] at h
    cases h
  · intro e w₁ h
    rw [hm] at h
    cases h

theorem Meets.mono {m : Act W ε α} {F : ε → W → Prop} (h : Meets m w P F) (hPQ : ∀ a w', P a w' → Q a w')
    (hFE : ∀ e w', F e w' → E e w') : Meets m w Q E :=
  ⟨fun a w' hm => hPQ a w' (h.returned a w' hm), fun e w' hm => hFE e w' (h.raised e w' hm)⟩

theorem Meets.bind {m : Act W ε α} {f : α → Act W ε β} {Q : β → W → Prop} (hm : Meets m w P E)
    (hf : ∀ a w', P a w' → Meets (f a) w' Q E) : Meets (m >>= f) w Q E := by
  rcases ho : m w with ⟨o, w'⟩
  cases o with
  | ret a =>
    have h := hf a w' (hm.returned a w' ho)
    have hrun := bind_of_ret (f := f) ho
    exact ⟨fun b w₁ hb => h.returned b w₁ (hrun.symm.trans hb), fun e w₁ he => h.raised e w₁ (hrun.symm.trans he)⟩
  | raise e => exact Meets.raise (bind_of_raise ho) (hm.raised e w' ho)
  | crash => exact Meets.cut (bind_of_crash ho)

theorem Meets.foldlM {γ : Type} {f : α → γ → Act W ε α} (I : List γ → α → W → Prop) {all : List γ}
    (hf : ∀ done x rest a w, all = done ++ x :: rest → I done a w → Meets (f a x) w (I (done ++ [x])) E) :
    ∀ {xs done : List γ} {a : α} {w : W}, all = done ++ xs → I done a w → Meets (xs.foldlM f a) w (I all) E := by
  intro xs
  induction xs with
  | nil =>
    intro done a w hall hw
    rw [hall, List.append_nil]
    exact Meets.ret rfl hw
  | cons x xs ih =>
    intro done a w hall hw
    apply Meets.bind (hf done x xs a w hall hw)
    intro a' w' hx
    exact ih (by simp [hall]) hx

end Act

end Monutchee.Lib
