import Mathlib.Data.List.Forall2
import Monutchee.Lib.Act

/-!
# Programs that ask their environment

A program asks its environment one question after the other. All answers are given beforehand, as
an infinite sequence, so that a statement for every sequence is a statement for every environment;
a question takes the next one. The answer and the world decide what is recorded, how the world
moves and how the question ends. A record is licensed if each of its events was allowed by what had
been recorded before it.
-/

namespace Monutchee.Lib

namespace Act
variable {W ε α β : Type} {I : W → Prop} {Q : β → W → Prop} {w : W}

/-- A check that passes leaves the world alone. -/
theorem Upholds.require_bind {b : Bool} {e : ε} {f : Unit → Act W ε β} (hw : I w)
    (h : b = true → Upholds I (f ()) w Q) : Upholds I (Act.require b e >>= f) w Q := by
  cases b with
  | true => exact h rfl
  | false => exact ⟨hw, fun a w' ha => by simp [Act.require, Act.bind_apply] at ha⟩

theorem Upholds.lift_bind {x : Except ε α} {f : α → Act W ε β} (hw : I w)
    (h : ∀ a, x = .ok a → Upholds I (f a) w Q) : Upholds I (Act.lift x >>= f) w Q := by
  cases x with
  | ok a => exact h a rfl
  | error e => exact ⟨hw, fun a w' ha => by simp [Act.lift, Act.bind_apply] at ha⟩

theorem run_eq {m : Act W ε α} {o : Outcome ε α} (h : (m w).1 = o) : m w = (o, (m w).2) := by
  rw [← h]

/-- The loop rule with the elements still to come. -/
theorem Upholds.each_split {f : β → Act W ε Unit} (J : List β → W → Prop) {all : List β}
    (hf : ∀ done b rest w, all = done ++ b :: rest → I w → J done w →
      Upholds I (f b) w fun _ w' => J (done ++ [b]) w') {bs done : List β} (hall : all = done ++ bs)
    (hw : I w) (hj : J done w) : Upholds I (Act.each f bs) w fun _ w' => J all w' := by
  induction bs generalizing done w with
  | nil =>
    rw [hall, List.append_nil]
    exact Upholds.pure hw hj
  | cons b bs ih =>
    apply Upholds.bind (hf done b bs w hall hw hj)
    intro _ w' hw' hb
    have hnext : all = done ++ [b] ++ bs := by rw [hall, List.append_assoc, List.singleton_append]
    exact ih hnext hw' hb

end Act

structure Session (A E W : Type) where
  answers : ℕ → A
  turn : ℕ
  record : List E
  world : W

structure Reply (E W ε α : Type) where
  events : List E
  world : W
  outcome : Outcome ε α

namespace Session
variable {A E W ε α β : Type}

/-- Before the first question. -/
def opened (answers : ℕ → A) (world : W) : Session A E W := ⟨answers, 0, [], world⟩

def next (s : Session A E W) : A := s.answers s.turn

def moved (s : Session A E W) (events : List E) (world : W) : Session A E W :=
  ⟨s.answers, s.turn + 1, s.record ++ events, world⟩

def ask (f : A → W → Reply E W ε α) : Act (Session A E W) ε α := fun s =>
  ((f s.next s.world).outcome, s.moved (f s.next s.world).events (f s.next s.world).world)

@[simp] theorem opened_record (answers : ℕ → A) (world : W) :
    (opened answers world : Session A E W).record = [] := rfl

@[simp] theorem opened_world (answers : ℕ → A) (world : W) :
    (opened answers world : Session A E W).world = world := rfl

@[simp] theorem opened_answers (answers : ℕ → A) (world : W) :
    (opened answers world : Session A E W).answers = answers := rfl

@[simp] theorem moved_record (s : Session A E W) (events : List E) (world : W) :
    (s.moved events world).record = s.record ++ events := rfl

@[simp] theorem moved_world (s : Session A E W) (events : List E) (world : W) :
    (s.moved events world).world = world := rfl

@[simp] theorem moved_answers (s : Session A E W) (events : List E) (world : W) :
    (s.moved events world).answers = s.answers := rfl

variable {I C : Session A E W → Prop} {s : Session A E W} {f : A → W → Reply E W ε α}

/-- The rule for a question: the invariant afterwards, and the postcondition where it is answered. -/
theorem upholds_ask {Q : α → Session A E W → Prop}
    (hkept : I (s.moved (f s.next s.world).events (f s.next s.world).world))
    (hpost : ∀ a, (f s.next s.world).outcome = .ret a →
      Q a (s.moved (f s.next s.world).events (f s.next s.world).world)) :
    Act.Upholds I (ask f) s Q := by
  constructor
  · exact hkept
  · intro a s' h
    have hret : (f s.next s.world).outcome = .ret a := congrArg Prod.fst h
    have hs' : s.moved (f s.next s.world).events (f s.next s.world).world = s' := congrArg Prod.snd h
    rw [← hs']
    exact hpost a hret

/-- The loop rule: each round adds its own part to the record. -/
theorem upholds_each {R : β → List E → Prop} {g : β → Act (Session A E W) ε Unit} {bs : List β} (hs : I s)
    (hg : ∀ b ∈ bs, ∀ s, I s → Act.Upholds I (g b) s fun _ s' => ∃ l, s'.record = s.record ++ l ∧ R b l) :
    Act.Upholds I (Act.each g bs) s fun _ s' =>
      ∃ logs, s'.record = s.record ++ logs.flatten ∧ List.Forall₂ R bs logs := by
  induction bs generalizing s with
  | nil => exact Act.Upholds.pure hs ⟨[], by simp, List.Forall₂.nil⟩
  | cons b bs ih =>
    apply Act.Upholds.bind (hg b (List.mem_cons_self ..) s hs)
    intro _ s₁ hs₁ hfirst
    obtain ⟨l, hl, hb⟩ := hfirst
    have hrest := ih hs₁ fun b hb => hg b (List.mem_cons_of_mem _ hb)
    apply hrest.mono
    intro _ s₂ _ hlogs
    obtain ⟨logs, hlogs, hbs⟩ := hlogs
    exact ⟨l :: logs, by rw [hlogs, hl, List.flatten_cons, List.append_assoc], List.Forall₂.cons hb hbs⟩

/-- A part of the record that a round added. -/
theorem exists_log {R : β → List E → Prop} {bs : List β} {logs : List (List E)} (h : List.Forall₂ R bs logs)
    {b : β} (hb : b ∈ bs) : ∃ l ∈ logs, R b l := by
  induction h with
  | nil => cases hb
  | cons hfirst _ ih =>
    rcases List.mem_cons.mp hb with rfl | hb
    · exact ⟨_, List.mem_cons_self .., hfirst⟩
    · obtain ⟨l, hl, hbl⟩ := ih hb
      exact ⟨l, List.mem_cons_of_mem _ hl, hbl⟩

/-! ### Licensed records -/

/-- Every event was allowed by the part of the record before it. -/
def Licensed (L : List E → E → Prop) (record : List E) : Prop :=
  ∀ before e after, record = before ++ e :: after → L before e

variable {L M : List E → E → Prop} {l m : List E}

theorem licensed_nil : Licensed L [] := by
  intro before e after h
  simp at h

theorem Licensed.prefix (h : Licensed L (l ++ m)) : Licensed L l := by
  intro before e after hl
  exact h before e (after ++ m) (by rw [hl, List.append_assoc, List.cons_append])

/-- One event more. -/
theorem Licensed.snoc (h : Licensed L l) {e : E} (he : L l e) : Licensed L (l ++ [e]) := by
  intro before x after hsplit
  rcases List.eq_nil_or_concat after with hnil | ⟨after', y, hafter⟩
  · rw [hnil] at hsplit
    obtain ⟨hbefore, hx⟩ := List.append_inj' hsplit rfl
    have hxe : e = x := List.singleton_inj.mp hx
    rw [← hbefore, ← hxe]
    exact he
  · rw [hafter, List.concat_eq_append, ← List.cons_append, ← List.append_assoc] at hsplit
    obtain ⟨hl, -⟩ := List.append_inj' hsplit rfl
    exact h before x after' hl

/-- Events that need no licence. -/
theorem Licensed.append_free (h : Licensed L l) (hfree : ∀ e ∈ m, ∀ before, L before e) :
    Licensed L (l ++ m) := by
  induction m generalizing l with
  | nil => rwa [List.append_nil]
  | cons e m ih =>
    have hone : Licensed L (l ++ [e]) := h.snoc (hfree e (List.mem_cons_self ..) l)
    have hrest := ih hone fun x hx => hfree x (List.mem_cons_of_mem _ hx)
    rwa [List.append_assoc, List.singleton_append] at hrest

theorem Licensed.mono (h : Licensed L l) (hLM : ∀ before e, L before e → M before e) : Licensed M l := by
  intro before e after hl
  exact hLM before e (h before e after hl)

end Session

end Monutchee.Lib
