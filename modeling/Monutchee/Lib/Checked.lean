import Mathlib.Init

/-!
# Checks that raise

A function that validates its input is a sequence of checks. It returns exactly when every
check lets the input pass, and the rules below take such a sequence apart.
-/

namespace Monutchee.Lib

variable {ε α β : Type}

/-- Raise `e` when the input is bad. -/
def refuse (bad : Bool) (e : ε) : Except ε Unit := if bad then .error e else .ok ()

@[simp] theorem refuse_ok {bad : Bool} {e : ε} {u : Unit} : refuse bad e = .ok u ↔ bad = false := by
  cases bad <;> simp [refuse]

theorem bind_ok {x : Except ε α} {f : α → Except ε β} {b : β} :
    (x >>= f) = .ok b ↔ ∃ a, x = .ok a ∧ f a = .ok b := by
  cases x with
  | error e =>
    constructor
    · intro h
      cases h
    · rintro ⟨a, ha, -⟩
      cases ha
  | ok a =>
    constructor
    · intro h
      exact ⟨a, rfl, h⟩
    · rintro ⟨a', ha, h⟩
      cases ha
      exact h

@[simp] theorem pure_ok {a b : α} : (pure a : Except ε α) = .ok b ↔ a = b := by
  constructor
  · intro h
    cases h
    rfl
  · rintro rfl
    rfl

/-- A loop of checks passes when each of its rounds does. -/
theorem forM_ok {l : List α} {f : α → Except ε Unit} {u : Unit} :
    l.forM f = .ok u ↔ ∀ a ∈ l, f a = .ok () := by
  induction l with
  | nil =>
    constructor
    · intro _ a ha
      cases ha
    · intro _
      rfl
  | cons a l ih =>
    show (f a >>= fun _ => l.forM f) = .ok u ↔ _
    rw [bind_ok]
    constructor
    · rintro ⟨⟨⟩, ha, hl⟩ b hb
      rcases List.mem_cons.mp hb with rfl | hb
      · exact ha
      · exact ih.mp hl b hb
    · intro h
      exact ⟨(), h a (List.mem_cons_self ..),
        ih.mpr fun b hb => h b (List.mem_cons_of_mem _ hb)⟩

/-- What a loop collects was computed in one of its rounds. -/
theorem mem_of_mapM_ok {l : List α} {f : α → Except ε β} {r : List β} (h : l.mapM f = .ok r) :
    ∀ b ∈ r, ∃ a ∈ l, f a = .ok b := by
  induction l generalizing r with
  | nil =>
    rw [List.mapM_nil] at h
    cases h
    simp
  | cons a l ih =>
    rw [List.mapM_cons] at h
    simp only [bind_ok, pure_ok] at h
    obtain ⟨b, hb, rest, hrest, rfl⟩ := h
    intro c hc
    rcases List.mem_cons.mp hc with rfl | hc
    · exact ⟨a, List.mem_cons_self .., hb⟩
    · obtain ⟨a', ha', he⟩ := ih hrest c hc
      exact ⟨a', List.mem_cons_of_mem _ ha', he⟩

theorem mapM_eq_ok {l : List α} {f : α → Except ε β} {g : α → β} (h : ∀ a ∈ l, f a = .ok (g a)) :
    l.mapM f = .ok (l.map g) := by
  induction l with
  | nil => rfl
  | cons a l ih =>
    rw [List.mapM_cons, h a (List.mem_cons_self ..), ih fun b hb => h b (List.mem_cons_of_mem _ hb)]
    rfl

theorem mapM_returns {l : List α} {f : α → Except ε β} (h : ∀ a ∈ l, ∃ b, f a = .ok b) : ∃ r, l.mapM f = .ok r := by
  induction l with
  | nil => exact ⟨[], rfl⟩
  | cons a l ih =>
    obtain ⟨b, hb⟩ := h a (List.mem_cons_self ..)
    obtain ⟨r, hr⟩ := ih fun c hc => h c (List.mem_cons_of_mem _ hc)
    exact ⟨b :: r, by rw [List.mapM_cons, hb, hr]; rfl⟩

theorem foldlM_returns {l : List α} {f : β → α → Except ε β} (h : ∀ b, ∀ a ∈ l, ∃ b', f b a = .ok b') (b : β) :
    ∃ b', l.foldlM f b = .ok b' := by
  induction l generalizing b with
  | nil => exact ⟨b, rfl⟩
  | cons a l ih =>
    obtain ⟨b₁, h₁⟩ := h b a (List.mem_cons_self ..)
    obtain ⟨b₂, h₂⟩ := ih (fun b c hc => h b c (List.mem_cons_of_mem _ hc)) b₁
    exact ⟨b₂, by rw [List.foldlM_cons, h₁]; exact h₂⟩

/-! ### Which errors -/

/-- Whatever the function raises meets `P`. -/
def Only (P : ε → Prop) (x : Except ε α) : Prop := ∀ e, x = .error e → P e

variable {P Q : ε → Prop}

theorem Only.ok {x : Except ε α} {a : α} (h : x = .ok a) : Only P x := by
  intro e he
  rw [h] at he
  cases he

theorem Only.raised {x : Except ε α} {e : ε} (hx : x = .error e) (h : P e) : Only P x := by
  intro e' he
  rw [hx] at he
  cases he
  exact h

theorem Only.refuse {bad : Bool} {e : ε} (h : P e) : Only P (refuse bad e) := by
  cases bad with
  | true => exact Only.raised rfl h
  | false => exact Only.ok (a := ()) rfl

theorem Only.bind {x : Except ε α} {f : α → Except ε β} (hx : Only P x) (hf : ∀ a, x = .ok a → Only P (f a)) :
    Only P (x >>= f) := by
  cases x with
  | error e => exact Only.raised rfl (hx e rfl)
  | ok a => exact hf a rfl

/-- A loop raises what the first round that raises does. -/
theorem Only.forM {l : List α} {f : α → Except ε Unit}
    (h : ∀ before a behind, l = before ++ a :: behind → (∀ b ∈ before, f b = .ok ()) → Only P (f a)) :
    Only P (l.forM f) := by
  induction l with
  | nil => exact Only.ok (a := ()) rfl
  | cons a l ih =>
    show Only P (f a >>= fun _ => l.forM f)
    refine Only.bind (h [] a l rfl (by simp)) ?_
    rintro ⟨⟩ ha
    apply ih
    intro before b behind hl hbefore
    apply h (a :: before) b behind (by rw [hl, List.cons_append])
    intro c hc
    rcases List.mem_cons.mp hc with rfl | hc
    · exact ha
    · exact hbefore c hc

/-- After a check that passes, the rest decides. -/
theorem bind_of_ok {x : Except ε α} {f : α → Except ε β} {a : α} (h : x = .ok a) : (x >>= f) = f a := by
  rw [h]
  rfl

theorem forM_error {before : List α} {a : α} {behind : List α} {f : α → Except ε Unit} {e : ε}
    (hbefore : ∀ b ∈ before, f b = .ok ()) (ha : f a = .error e) : (before ++ a :: behind).forM f = .error e := by
  induction before with
  | nil =>
    show (f a >>= fun _ => behind.forM f) = .error e
    rw [ha]
    rfl
  | cons b before ih =>
    show (f b >>= fun _ => (before ++ a :: behind).forM f) = .error e
    rw [bind_of_ok (hbefore b (List.mem_cons_self ..))]
    exact ih fun c hc => hbefore c (List.mem_cons_of_mem _ hc)

end Monutchee.Lib
