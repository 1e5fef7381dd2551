import Monutchee.System.Latch

/-!
# Confirmation deadlines

A proposal may be confirmed for 120 seconds, and a prepared commit has 30 seconds to be
finished; both limits share the field `deadline`. The clock readings are part of the
history. A preparation reads the clock before the first deadline and so moves it to less
than 150 seconds after the proposal; further preparations do not move it.
-/

namespace Monutchee.System
open Lib Lib.Act Relation

variable {S : Site} {c c' : Core} {s d : State} {marks t t' : List Entry} {w w' : World}

/-- The clock is constant within a call and does not go back between calls. -/
def steadyClock : List Entry → Bool
  | [] => true
  | .reading u :: t =>
    (match lastReading (sinceCall t) with
      | some v => v == u
      | none => (lastReading t).all (· ≤ u)) && steadyClock t
  | _ :: t => steadyClock t

/-- The time: the last reading of the clock. -/
def now (t : List Entry) : ℕ := (lastReading t).getD 0

/-- The time at which the last transaction was begun. -/
def begunAt : List Entry → Option ℕ
  | [] => none
  | .begun _ _ _ :: t => lastReading t
  | _ :: t => begunAt t

/-! ### Clock readings -/

theorem steadyClock_cons {e : Entry} (h : steadyClock (e :: t) = true) : steadyClock t = true := by
  cases e with
  | reading u =>
    simp only [steadyClock, Bool.and_eq_true] at h
    exact h.2
  | _ => exact h

/-- All readings of the call in progress are the last one. -/
theorem reading_of_steady {u : ℕ} (h : steadyClock t = true) (hu : .reading u ∈ sinceCall t) :
    lastReading (sinceCall t) = some u ∧ lastReading t = some u := by
  induction t with
  | nil => simp [sinceCall] at hu
  | cons e t ih =>
    have ih := ih (steadyClock_cons h)
    cases e with
    | call op l => simp [sinceCall, Entry.isCall] at hu
    | reading v =>
      have hv : v = u := by
        rcases List.mem_cons.mp hu with hu | hu
        · injection hu with hu
          exact hu.symm
        · simp only [steadyClock, (ih hu).1, Bool.and_eq_true, beq_iff_eq] at h
          exact h.1.symm
      rw [hv]
      exact ⟨rfl, rfl⟩
    | _ => exact ih (by simpa [sinceCall, Entry.isCall] using hu)

theorem now_of_steady {u : ℕ} (h : steadyClock t = true) (hu : .reading u ∈ sinceCall t) :
    now t = u := by
  rw [now, (reading_of_steady h hu).2]
  rfl

/-! ### Properties of the deadline -/

/-- What a property of the history and of the deadline of an open transaction must satisfy to be
kept by every move, in memory and in the journal, while the clock meets the condition `ok`. -/
structure Dated (ok : List Entry → Prop) (Q : List Entry → TransactionState → ℕ → Prop) : Prop where
  tail : ∀ e t, ok (e :: t) → ok t
  entry : ∀ e t st d, ok (e :: t) → (∀ id config b, e ≠ .begun id config b) → Q t st d → Q (e :: t) st d
  begin : ∀ id config b t time, ok (.begun id config b :: t) → lastReading t = some time →
    Q (.begun id config b :: t) .pending (add64 time 120000)
  prepare : ∀ t time u d, ok t → .reading time ∈ sinceCall t → .reading u ∈ sinceCall t → u < d →
    Q t .pending d → Q t .committing (add64 time 30000)

def Holds (Q : List Entry → TransactionState → ℕ → Prop) (t : List Entry) (s : State) : Prop :=
  s.isOpen = true → Q t s.pending.transaction.state s.pending.deadline

variable {ok : List Entry → Prop} {Q : List Entry → TransactionState → ℕ → Prop}

theorem Holds.congr (h : Holds Q t s) (hp : d.pending.transaction.state = s.pending.transaction.state)
    (hd : d.pending.deadline = s.pending.deadline) : Holds Q t d := by
  unfold Holds State.isOpen at *
  rw [hp, hd]
  exact h

theorem holds_of_closed (h : s.isOpen = false) : Holds Q t s := by
  intro ho
  rw [h] at ho
  simp at ho

theorem Dated.suffix (hD : Dated ok Q) {es : List Entry} (h : ok (es ++ t)) : ok t := by
  induction es with
  | nil => exact h
  | cons e es ih => exact ih (hD.tail e _ h)

/-- The history grew without a new transaction. -/
theorem Holds.grow (hD : Dated ok Q) (es : List Entry) (hok : ok (es ++ t))
    (hes : ∀ e ∈ es, ∀ id config b, e ≠ .begun id config b) (h : Holds Q t s) :
    Holds Q (es ++ t) s := by
  induction es with
  | nil => exact h
  | cons e es ih =>
    have htail := ih (hD.tail e _ hok) fun x hx => hes x (List.mem_cons_of_mem _ hx)
    intro ho
    exact hD.entry e _ _ _ hok (hes e (List.mem_cons_self ..)) (htail ho)

theorem dated_saved (hD : Dated ok Q) (hs : Saved c s marks c') (hok : ok c'.trace)
    (h : Everywhere (Holds Q (marks ++ c.trace)) { c with state := s }) :
    Everywhere (Holds Q c'.trace) c' := by
  have grown : ∀ x, Holds Q (marks ++ c.trace) x → Holds Q c'.trace x := by
    intro x hx
    cases hs with
    | refused _ => exact hx
    | cut _ => exact hx
    | ok _ => exact Holds.grow hD [_] hok (by simp) hx
    | lost left _ => exact Holds.grow hD [_] hok (by simp) hx
  refine ⟨?_, ?_⟩
  · rw [hs.state]
    exact grown s h.memory
  · intro d hd
    rcases hs.holds hd with rfl | hd
    · exact grown d h.memory
    · exact grown d (h.journal d hd)

theorem dated_change (hD : Dated ok Q) (hI : Invariant c) (ha : c.alive = true)
    (hok : ok (marks ++ c.trace)) (h : Everywhere (Holds Q c.trace) c) (hc : Change S c s marks) :
    Everywhere (Holds Q (marks ++ c.trace)) { c with state := s } := by
  have hmark : ∀ {e : Entry} {x : State}, (∀ id config b, e ≠ .begun id config b) →
      ok (e :: c.trace) → Holds Q c.trace x → Holds Q (e :: c.trace) x := by
    intro e x he hok hx
    exact Holds.grow hD [e] hok (by simpa using he) hx
  cases hc with
  | begin p id actor requestId time hf _ hi _ _ _ hlast =>
    refine ⟨fun _ => hD.begin _ _ _ _ time hok hlast, ?_⟩
    intro d hd
    have hp := ((hI.sync ha hf).present d hd).pending (.inl (.inl hi.2.2))
    exact holds_of_closed ((open_of_body hp).trans hi.1)
  | prepare time _ _ hp _ htime hu =>
    refine ⟨?_, h.journal⟩
    intro _
    obtain ⟨u, hu, hlt⟩ := hu
    have hQ := h.memory (by rw [State.isOpen, hp]; rfl)
    rw [hp] at hQ
    exact hD.prepare _ time u _ hok htime hu hlt hQ
  | settle commit _ _ _ _ =>
    exact ⟨holds_of_closed (settle_not_open _ commit), fun d hd => hmark (by simp) hok (h.journal d hd)⟩
  | job job actor requestId _ _ _ _ =>
    exact ⟨hmark (by simp) hok (h.memory.congr rfl rfl), fun d hd => hmark (by simp) hok (h.journal d hd)⟩
  | interrupt _ _ _ _ =>
    exact ⟨hmark (by simp) hok (h.memory.congr rfl rfl), fun d hd => hmark (by simp) hok (h.journal d hd)⟩
  | _ => exact ⟨h.memory.congr rfl rfl, h.journal⟩

theorem dated_move (hD : Dated ok Q) (hm : Move S c c') (hok : ok c'.trace) (hI : Invariant c)
    (h : Everywhere (Holds Q c.trace) c) : Everywhere (Holds Q c'.trace) c' := by
  -- An entry other than `begun`.
  have hentry : ∀ (e : Entry) (c' : Core), (∀ id config b, e ≠ .begun id config b) →
      c'.trace = e :: c.trace → ok c'.trace → c'.state = c.state →
      (∀ d, c'.journal = some d → c.journal = some d) → Everywhere (Holds Q c'.trace) c' := by
    intro e c' he ht hok hs hj
    have hgrow : ∀ {x : State}, Holds Q c.trace x → Holds Q c'.trace x := by
      intro x hx
      rw [ht] at hok ⊢
      exact Holds.grow hD [e] hok (by simpa using he) hx
    exact ⟨hgrow (h.memory.congr (by rw [hs]) (by rw [hs])), fun d hd => hgrow (h.journal d (hj d hd))⟩
  have hsaved : ∀ {c₀ : Core} {s : State} {marks : List Entry} {c' : Core}, Saved c₀ s marks c' →
      ok c'.trace → ok (marks ++ c₀.trace) := by
    intro c₀ s marks c' hs hok
    obtain ⟨es, ht⟩ := hs.grows
    rw [ht] at hok
    exact hD.suffix hok
  cases hm with
  | dispatch _ _ hs =>
    have hmarks := hsaved hs hok
    refine dated_saved hD hs hok ⟨?_, fun d hd => ?_⟩
    · exact Holds.grow hD [.dispatching] hmarks (by simp) (h.memory.congr rfl rfl)
    · exact Holds.grow hD [.dispatching] hmarks (by simp) (h.journal d hd)
  | save ha hc hs => exact dated_saved hD hs hok (dated_change hD hI ha (hsaved hs hok) h hc)
  | loose _ hl =>
    cases hl with
    | wipe _ _ =>
      refine ⟨holds_of_closed rfl, fun d hd => ?_⟩
      exact Holds.grow hD [.cleared] hok (by simp) (h.journal d hd)
    | _ => exact ⟨h.memory.congr rfl rfl, h.journal⟩
  | construct =>
    have hgrow : ∀ {x : State}, Holds Q c.trace x → Holds Q (.constructed :: c.trace) x :=
      fun hx => Holds.grow hD [.constructed] hok (by simp) hx
    refine ⟨?_, fun d hd => hgrow (h.journal d hd)⟩
    change Holds Q _ (Backend.loaded S.profile c.journal)
    cases hj : c.journal with
    | none => exact holds_of_closed (by rw [State.isOpen, loaded_pending]; rfl)
    | some d =>
      have hp := loaded_pending S.profile (some d)
      exact (hgrow (h.journal d hj)).congr (by rw [hp]; rfl) (by rw [hp]; rfl)
  | remove p _ _ _ _ =>
    refine hentry _ _ (by simp) rfl hok rfl fun d hd => ?_
    dsimp only at hd
    split at hd
    · simp at hd
    · exact hd
  | note e he =>
    refine hentry e _ ?_ rfl hok rfl fun _ hd => hd
    rintro id config b rfl
    simp [Entry.inert] at he
  | network n bootstrap ok _ _ =>
    refine hentry _ _ ?_ rfl hok rfl fun _ hd => hd
    cases ok <;> simp
  | arm => exact ⟨h.memory, h.journal⟩
  | stop => exact ⟨h.memory, h.journal⟩
  | _ => exact hentry _ _ (by simp) rfl hok rfl fun _ hd => hd

theorem dated_path (hD : Dated ok Q) (hp : Path S c c') (hok : ok c'.trace) (hI : Invariant c)
    (h : Everywhere (Holds Q c.trace) c) : Everywhere (Holds Q c'.trace) c' := by
  have hback : ∀ a b : Core, Move S a b → ok b.trace → ok a.trace := by
    intro a b hm hb
    obtain ⟨es, ht⟩ := hm.grows
    rw [ht] at hb
    exact hD.suffix hb
  have hk := path_keeps_while (I := fun c => Invariant c ∧ Everywhere (Holds Q c.trace) c) hback
    (fun _ _ hm hok h => ⟨Invariant.move hm h.1, dated_move hD hm hok h.1 h.2⟩) hp hok ⟨hI, h⟩
  exact hk.2

/-! ### The deadline counted from the proposal -/

theorem add64_le (a b : ℕ) : add64 a b ≤ a + b := Nat.mod_le _ _

/-- The deadline of an open transaction, against the time it was begun. -/
def Bounded (t : List Entry) (state : TransactionState) (deadline : ℕ) : Prop :=
  ∃ t₀, begunAt t = some t₀ ∧ deadline ≤ t₀ + 150000 ∧ (state = .pending → deadline ≤ t₀ + 120000)

theorem bounded_dated : Dated (fun t => steadyClock t = true) Bounded where
  tail _ _ h := steadyClock_cons h
  entry e t st d _ he h := by
    have ht : begunAt (e :: t) = begunAt t := by
      cases e with
      | begun id config b => exact absurd rfl (he id config b)
      | _ => rfl
    unfold Bounded
    rw [ht]
    exact h
  begin id config b t time _ hlast := by
    have hd := add64_le time 120000
    exact ⟨time, hlast, by omega, fun _ => hd⟩
  prepare t time u d hst htime hu hlt h := by
    have heq : u = time := (now_of_steady hst hu).symm.trans (now_of_steady hst htime)
    obtain ⟨t₀, ht₀, -, hpend⟩ := h
    have hd := add64_le time 30000
    have hb := hpend rfl
    exact ⟨t₀, ht₀, by omega, fun hs => by simp at hs⟩

/-! ### A tick in a calm environment -/

/-- The largest file that readFile accepts. -/
def fileLimit : ℕ := 1048576

/-- Nothing stops the process, no operation fails, and what the authority writes can be read. -/
def Choice.calm (c : Choice) : Bool :=
  !c.crash && !c.fails && c.writes.all fun v => v.length ≤ fileLimit

structure Calm (w : World) : Prop where
  sound : w.failed = false
  script : ∀ c ∈ w.script, c.calm = true
  settings : ∀ v, w.settings = some v → v.length ≤ fileLimit

theorem calm_authority (vs : List Bytes) (hv : ∀ v ∈ vs, v.length ≤ fileLimit) (hw : Calm w) :
    Calm (w.authority vs) := by
  induction vs generalizing w with
  | nil => exact hw
  | cons v vs ih =>
    apply ih fun x hx => hv x (List.mem_cons_of_mem _ hx)
    refine ⟨hw.sound, hw.script, ?_⟩
    intro x hx
    injection hx with hx
    exact hx ▸ hv v (List.mem_cons_self ..)

theorem calm_draw (hw : Calm w) : w.draw.1.calm = true ∧ Calm w.draw.2 := by
  unfold World.draw
  split
  · exact ⟨rfl, hw⟩
  · rename_i c cs hs
    refine ⟨hw.script c (by rw [hs]; exact List.mem_cons_self ..), hw.sound, ?_, hw.settings⟩
    intro x hx
    exact hw.script x (by rw [hs]; exact List.mem_cons_of_mem _ hx)

theorem calm_effect {α : Type} {op : Choice → World → Outcome Error α × World} (hw : Calm w)
    (h : ∀ c w, c.fails = false → Calm w → ∃ a w', op c w = (.ret a, w') ∧ Calm w') :
    Completes Calm (effect op) w := by
  obtain ⟨hc, hd⟩ := calm_draw hw
  simp only [Choice.calm, Bool.and_eq_true, Bool.not_eq_true', List.all_eq_true,
    decide_eq_true_eq] at hc
  obtain ⟨a, w', hop, hw'⟩ := h _ _ hc.1.2 hd
  refine ⟨a, w'.authority w.draw.1.writes, ?_, calm_authority _ hc.2 hw'⟩
  rw [effect_apply, if_neg (by simp [hc.1.1]), hop]

theorem readClock_completes (hw : Calm w) : Completes Calm readClock w :=
  calm_effect hw fun _ _ _ hw => ⟨_, _, rfl, hw.sound, hw.script, hw.settings⟩

theorem platformCall_completes (entry : Bool → Entry) (hw : Calm w) :
    Completes Calm (platformCall entry) w := by
  apply calm_effect hw
  intro c w hf hw
  rw [if_neg (by simp [hf])]
  exact ⟨_, _, rfl, hw.sound, hw.script, hw.settings⟩

theorem fileHash_completes (hw : Calm w) : Completes Calm (fileHash S) w := by
  apply calm_effect hw
  intro c w hf hw
  have hd : ∃ h, digest S w.settings = .ok h := by
    cases hs : w.settings with
    | none => exact ⟨[], rfl⟩
    | some v =>
      have hv := hw.settings v hs
      refine ⟨S.sha256 v, if_neg ?_⟩
      unfold fileLimit at hv
      omega
  obtain ⟨h, hd⟩ := hd
  rw [if_neg (by simp [hf])]
  simp only [hd]
  exact ⟨_, _, rfl, hw.sound, hw.script, hw.settings⟩

namespace Backend

theorem setState_completes (f : State → State) (marks : List Entry) (hw : Calm w) :
    Completes Calm (setState f marks) w := Completes.modify ⟨hw.sound, hw.script, hw.settings⟩

theorem event_completes (e : UserEvent) (hw : Calm w) : Completes Calm (event e) w :=
  Completes.modify ⟨hw.sound, hw.script, hw.settings⟩

theorem persist_completes (hw : Calm w) : Completes Calm persist w := by
  unfold persist
  apply Completes.gets
  apply Completes.seq (Completes.require (by simp [hw.sound]) hw)
  intro _ w₁ hw₁
  apply Completes.attempt
  apply calm_effect hw₁
  intro c w hf hw
  rw [if_neg (by simp [hf])]
  exact ⟨_, _, rfl, hw.sound, hw.script, hw.settings⟩

theorem settleNetwork_completes (commit bootstrap : Bool) (reason : Reason) (hw : Calm w) :
    Completes Calm (settleNetwork commit bootstrap reason) w := by
  unfold settleNetwork
  apply Completes.gets
  apply Completes.seq (platformCall_completes _ hw)
  intro _ w₁ hw₁
  apply Completes.seq (setState_completes _ _ hw₁)
  intro _ w₂ hw₂
  exact Completes.seq (persist_completes hw₂) fun _ w₃ hw₃ => event_completes _ hw₃

theorem recoverNetwork_completes (bootstrap : Bool) (hw : Calm w) :
    Completes Calm (recoverNetwork S bootstrap) w := by
  unfold recoverNetwork
  apply Completes.gets
  by_cases ho : w.state.isOpen = true
  · rw [if_pos ho]
    dsimp only
    by_cases hc : (w.state.pending.transaction.state == .committing) = true
    · rw [if_pos hc]
      apply Completes.seq
      · exact Completes.seq (fileHash_completes hw) fun _ w₁ hw₁ => Completes.pure _ hw₁
      · intro _ w₁ hw₁
        exact settleNetwork_completes _ _ _ hw₁
    · rw [if_neg hc]
      exact settleNetwork_completes _ _ _ hw
  · rw [if_neg ho]
    exact Completes.pure _ hw

theorem observeLink_completes (link : NetworkStatus) (hw : Calm w) :
    Completes Calm (observeLink S link) w := by
  unfold observeLink
  split
  · apply Completes.gets
    have hset : ∀ w, Calm w → Completes Calm (Act.modify fun w : World => { w with
        carriers := (link.interface, link.carrier) :: w.carriers.filter (·.1 != link.interface) } : Prog Unit) w :=
      fun w hw => Completes.modify ⟨hw.sound, hw.script, hw.settings⟩
    cases w.carriers.lookup link.interface with
    | some previous =>
      by_cases hp : (previous != link.carrier) = true
      · simp only [if_pos hp]
        exact Completes.seq (event_completes _ hw) fun _ w₁ hw₁ => hset w₁ hw₁
      · simp only [if_neg hp]
        exact Completes.seq (Completes.pure () hw) fun _ w₁ hw₁ => hset w₁ hw₁
    | none => exact Completes.seq (Completes.pure () hw) fun _ w₁ hw₁ => hset w₁ hw₁
  · exact Completes.pure _ hw

theorem observeLinks_completes (links : List NetworkStatus) (hw : Calm w) :
    Completes Calm (each (observeLink S) links) w := by
  induction links generalizing w with
  | nil => exact Completes.pure () hw
  | cons link links ih =>
    exact Completes.seq (observeLink_completes link hw) fun _ w₁ hw₁ => ih hw₁

theorem observeNetwork_completes (hw : Calm w) : Completes Calm (observeNetwork S) w := by
  unfold observeNetwork
  apply Completes.attempt
  apply Completes.seq
  · apply calm_effect hw
    intro c w hf hw
    rw [if_neg (by simp [hf])]
    exact ⟨_, _, rfl, hw⟩
  · intro links w₁ hw₁
    apply Completes.seq (Completes.modify ⟨hw₁.sound, hw₁.script, hw₁.settings⟩)
    intro _ w₂ hw₂
    exact observeLinks_completes links hw₂

theorem tickObserve_completes (hw : Calm w) : Completes Calm (tickObserve S) w := by
  unfold tickObserve
  apply Completes.seq (readClock_completes hw)
  intro t w₁ hw₁
  apply Completes.gets
  split
  · apply Completes.seq (readClock_completes hw₁)
    intro t₂ w₂ hw₂
    apply Completes.seq (Completes.modify ⟨hw₂.sound, hw₂.script, hw₂.settings⟩)
    intro _ w₃ hw₃
    exact observeNetwork_completes hw₃
  · exact Completes.pure _ hw₁

theorem tickExpire_completes (hw : Calm w) : Completes Calm (tickExpire S) w := by
  unfold tickExpire
  apply Completes.gets
  split
  · apply Completes.seq (readClock_completes hw)
    intro t w₁ hw₁
    split
    · exact recoverNetwork_completes false hw₁
    · exact Completes.pure _ hw₁
  · exact Completes.pure _ hw

theorem dispatch_completes (hw : Calm w) : Completes Calm dispatch w := by
  unfold dispatch
  apply Completes.seq (Completes.modify ⟨hw.sound, hw.script, hw.settings⟩)
  intro _ w₁ hw₁
  apply Completes.seq (setState_completes _ _ hw₁)
  intro _ w₂ hw₂
  apply Completes.seq (persist_completes hw₂)
  intro _ w₃ hw₃
  unfold dispatchPower
  apply Completes.gets
  apply Completes.attempt
  apply Completes.seq
  · apply calm_effect hw₃
    intro c w hf hw
    dsimp only
    rw [if_neg (by simp [hf])]
    exact ⟨_, _, rfl, hw.sound, hw.script, hw.settings⟩
  · intro _ w₄ hw₄
    exact event_completes _ hw₄

theorem tick_completes (hw : Calm w) : Completes Calm (tick S) w := by
  unfold tick
  apply Completes.gets
  apply Completes.seq (Completes.require (by simp [hw.sound]) hw)
  intro _ w₁ hw₁
  apply Completes.seq (tickObserve_completes hw₁)
  intro _ w₂ hw₂
  apply Completes.seq (tickExpire_completes hw₂)
  intro _ w₃ hw₃
  unfold tickDispatch
  apply Completes.gets
  split
  · apply Completes.seq (readClock_completes hw₃)
    intro t w₄ hw₄
    split
    · exact dispatch_completes hw₄
    · exact Completes.pure _ hw₄
  · exact Completes.pure _ hw₃

end Backend

/-- The whole call, with its last point where the process may stop. -/
theorem perform_tick_completes (script : List Choice) (hw : Calm { w with script := script }) :
    ∃ w', perform S .tick script w = (.ret .done, w') := by
  have hv : Calm (entered .tick script w) := ⟨hw.sound, hw.script, hw.settings⟩
  have hcall : Completes Calm (guarded S .tick) (entered .tick script w) := by
    apply Completes.seq
    · exact Completes.seq (Backend.tick_completes hv) fun _ w₁ hw₁ => Completes.pure Backend.Reply.done hw₁
    · intro r w₁ hw₁
      apply Completes.seq (calm_effect hw₁ fun _ w _ hw => ⟨(), w, rfl, hw⟩)
      intro _ w₂ hw₂
      exact Completes.pure r hw₂
  obtain ⟨r, w₁, h₁, _⟩ := hcall
  have hr : r = .done := by
    obtain ⟨r', w₂, h₂, h₃⟩ := bind_ret h₁
    obtain ⟨_, w₃, _, h₄⟩ := bind_ret h₂
    obtain ⟨_, w₅, _, h₆⟩ := bind_ret h₃
    injection h₄ with h₄ _
    injection h₄ with h₄
    injection h₆ with h₆ _
    injection h₆ with h₆
    rw [← h₆, ← h₄]
  refine ⟨w₁.log (.returned .tick), ?_⟩
  unfold perform
  rw [h₁, hr]

/-! ### Whole runs -/

def Op.ticks : Op → Bool
  | .tick | .networkTransaction | .prepareNetworkCommit _ => true
  | _ => false

/-- A reading of the body of a call is one of the call when it has returned. -/
theorem reading_returned {w₁ w₂ : World} {op : Op} {u : ℕ} (hf : Frame [] w₂ w₁)
    (hu : .reading u ∈ sinceCall w₂.trace) :
    .reading u ∈ sinceCall (w₁.log (.returned op)).trace := by
  have h₁ := Backend.Remembers.of_grown hf.trace (by simp) u hu
  simpa [World.log, sinceCall, Entry.isCall] using h₁

theorem not_due_returned {op : Op} {script : List Choice} {r : Backend.Reply} (ha : w.alive = true)
    (hst : steadyClock w'.trace = true) (h : perform S op script w = (.ret r, w'))
    (ho : w'.state.isOpen = true) (ht : op = .tick ∨ op = .networkTransaction) :
    now w'.trace < w'.state.pending.deadline := by
  obtain ⟨w₁, w₂, _, rfl, hret, hf⟩ := perform_returned _ _ ha h
  have hdue : Backend.NotDue w₂ := by
    rcases ht with rfl | rfl
    · exact hret
    · exact hret
  have hs : (w₁.log (.returned op)).state = w₂.state := hf.state
  rw [hs] at ho ⊢
  obtain ⟨u, hu, hlt⟩ := hdue ho
  rw [now_of_steady hst (reading_returned hf hu)]
  exact hlt

theorem prepared_returned {id : Bytes} {script : List Choice} {r : Backend.Reply}
    (ha : w.alive = true) (hst : steadyClock w'.trace = true)
    (h : perform S (.prepareNetworkCommit id) script w = (.ret r, w')) :
    now w'.trace < w.state.pending.deadline ∧
      (now w'.trace + 30000 < 2^64 → w'.state.isOpen = true →
        now w'.trace < w'.state.pending.deadline) := by
  obtain ⟨w₁, w₂, _, rfl, hret, hf⟩ := perform_returned _ _ ha h
  have hp : Backend.Prepared (entered (.prepareNetworkCommit id) script w) w₂ := hret
  have hs : (w₁.log (.returned (.prepareNetworkCommit id))).state = w₂.state := hf.state
  refine ⟨?_, ?_⟩
  · obtain ⟨u, hu, hlt⟩ := hp.early
    rw [now_of_steady hst (reading_returned hf hu)]
    exact hlt
  · intro hlim ho
    rw [hs] at ho ⊢
    rcases hp.due with hdue | ⟨u, hu, hd⟩
    · obtain ⟨u, hu, hlt⟩ := hdue ho
      rw [now_of_steady hst (reading_returned hf hu)]
      exact hlt
    · rw [now_of_steady hst (reading_returned hf hu)] at hlim ⊢
      rw [hd, add64_of_lt hlim]
      omega

/-- Deadlines of the confirmation protocol, for the next call of any run whose clock is
constant within a call and does not go back. The time of the call is its clock reading. -/
theorem confirmation_deadlines (S : Site) (settings : Option Bytes) (tree : List Bytes)
    (status : StatusFile) (es : List Event) (op : Op) (script : List Choice) :
    let w := run S (fresh settings tree status) es
    let p := perform S op script w
    w.alive = true → steadyClock p.2.trace = true →
    (∀ r, op.ticks = true → p.1 = .ret r →
      (∀ id, op = .prepareNetworkCommit id → now p.2.trace + 30000 < 2^64) →
      p.2.state.isOpen = true → now p.2.trace < p.2.state.pending.deadline) ∧
    (∀ id r, op = .prepareNetworkCommit id → w.state.pending.deadline ≤ now p.2.trace →
      p.1 ≠ .ret r) ∧
    (op = .tick → (∀ e ∈ w.trace, e.isLost = false) → (∀ c ∈ script, c.calm = true) →
      (∀ v, w.settings = some v → v.length ≤ fileLimit) →
      p.1 = .ret .done ∧ ∀ t₀, begunAt p.2.trace = some t₀ → t₀ + 150000 ≤ now p.2.trace →
        p.2.state.isOpen = false) := by
  intro w p ha hst
  have hpath : Path S (fresh settings tree status).toCore w.toCore := run_path S _ es
  refine ⟨?_, ?_, ?_⟩
  · intro r hticks hret hlim ho
    have hp : perform S op script w = (.ret r, p.2) := Prod.ext hret rfl
    cases op with
    | tick => exact not_due_returned ha hst hp ho (.inl rfl)
    | networkTransaction => exact not_due_returned ha hst hp ho (.inr rfl)
    | prepareNetworkCommit id => exact (prepared_returned ha hst hp).2 (hlim id rfl) ho
    | _ => simp [Op.ticks] at hticks
  · rintro id r rfl hlate hret
    have hp : perform S (.prepareNetworkCommit id) script w = (.ret r, p.2) := Prod.ext hret rfl
    have hlt := (prepared_returned ha hst hp).1
    omega
  · rintro rfl hlost hcalm hread
    have hf : w.failed = false := by
      have hrec := path_keeps (I := fun c => c.failed = true → ∃ e ∈ c.trace, e.isLost = true)
        (fun _ _ hm => latch_recorded hm) hpath (fun hf => by simp [fresh] at hf)
      by_contra hn
      obtain ⟨e, he, hl⟩ := hrec (by simpa using hn)
      rw [hlost e he] at hl
      simp at hl
    obtain ⟨w', hw'⟩ := perform_tick_completes (S := S) (w := w) script ⟨hf, hcalm, hread⟩
    have hret : p.1 = .ret .done := congrArg Prod.fst hw'
    have hp : perform S .tick script w = (.ret .done, p.2) := Prod.ext hret rfl
    refine ⟨hret, ?_⟩
    intro t₀ ht₀ hlate
    have hb : Everywhere (Holds Bounded p.2.trace) p.2.toCore := by
      refine dated_path bounded_dated (ReflTransGen.trans hpath (perform_path _ _ ha)) hst
        (Invariant.fresh settings tree status) ?_
      exact ⟨holds_of_closed rfl, by simp [fresh]⟩
    by_contra hn
    have ho : p.2.state.isOpen = true := by simpa using hn
    have hlt := not_due_returned ha hst hp ho (.inl rfl)
    obtain ⟨t₁, ht₁, hle, _⟩ := hb.memory ho
    rw [ht₁] at ht₀
    injection ht₀ with ht₀
    omega

/-- An environment that does nothing but let the clock stand at `t`. -/
def Fixture.idleAt (t : ℕ) : List Choice := List.replicate 16 { time := t, id := Fixture.id }

def Fixture.beginAt (t : ℕ) : Event :=
  .call (.beginNetwork proposal (ascii "web") []) (idleAt t)

theorem confirmation_deadlines_expired :
    let w := run Fixture.site (fresh (some Fixture.previous) [] .missing)
      (Fixture.started ++ [Fixture.beginAt 1000])
    w.state.isOpen = true ∧
      (perform Fixture.site .tick (Fixture.idleAt 151000) w).1 = .ret .done ∧
      (perform Fixture.site .tick (Fixture.idleAt 151000) w).2.state.isOpen = false := by
  have hread : ∀ w : World, w.settings = some Fixture.previous →
      ∀ v, w.settings = some v → v.length ≤ fileLimit := by
    intro w hset v hv
    have hlen : Fixture.previous.length = 8 := by decide
    rw [hset] at hv
    injection hv with hv
    rw [← hv, hlen, fileLimit]
    omega
  have h := confirmation_deadlines Fixture.site (some Fixture.previous) [] .missing
    (Fixture.started ++ [Fixture.beginAt 1000]) .tick (Fixture.idleAt 151000) (by decide +kernel)
    (by decide +kernel)
  have htick := h.2.2 rfl (by decide +kernel) (by decide +kernel) (hread _ (by decide +kernel))
  refine ⟨?_, htick.1, htick.2 1000 ?_ ?_⟩
  · decide +kernel
  · decide +kernel
  · decide +kernel

/-! ### What the clock's width and the file limit do -/

/-- A prepared transaction whose settings file cannot be hashed, with no write to come. -/
structure Stuck (w : World) : Prop where
  committing : w.state.pending.transaction.state = .committing
  unreadable : ∃ v, w.settings = some v ∧ fileLimit < v.length
  quiet : ∀ c ∈ w.script, c.writes = []

/-- The program leaves such a transaction as it is. -/
def Leaves (w w' : World) : Prop := Stuck w → Stuck w'

theorem Leaves.refl (w : World) : Leaves w w := fun h => h

theorem Leaves.trans (a b c : World) (h : Leaves a b) (h' : Leaves b c) : Leaves a c :=
  fun hs => h' (h hs)

theorem Leaves.of_same {w' : World} (hp : w'.state.pending = w.state.pending)
    (hs : w'.settings = w.settings) (hc : w'.script = w.script) : Leaves w w' := by
  intro h
  exact ⟨hp ▸ h.committing, hs ▸ h.unreadable, hc ▸ h.quiet⟩

theorem effect_leaves {α : Type} {op : Choice → World → Outcome Error α × World}
    (h : ∀ c w, Leaves w (op c w).2) (w : World) : Within Leaves (effect op) w := by
  intro hs
  have hd : Stuck w.draw.2 ∧ w.draw.1.writes = [] := by
    unfold World.draw
    split
    · exact ⟨hs, rfl⟩
    · rename_i c cs hcs
      refine ⟨⟨hs.committing, hs.unreadable, ?_⟩, hs.quiet c (by rw [hcs]; exact List.mem_cons_self ..)⟩
      intro x hx
      exact hs.quiet x (by rw [hcs]; exact List.mem_cons_of_mem _ hx)
  rw [effect_apply]
  split
  · exact ⟨hd.1.committing, hd.1.unreadable, hd.1.quiet⟩
  · rw [hd.2]
    exact h _ _ hd.1

theorem Leaves.bind {α β : Type} {m : Prog α} {f : α → Prog β} (hm : Within Leaves m w)
    (hf : ∀ a w', Within Leaves (f a) w') : Within Leaves (m >>= f) w :=
  Within.bind Leaves.trans hm fun a w' _ => hf a w'

theorem Leaves.gets {α β : Type} {g : World → α} {f : α → Prog β} (h : Within Leaves (f (g w)) w) :
    Within Leaves (Act.gets g >>= f) w := h

theorem Leaves.modify {g : World → World} (h : Leaves w (g w)) :
    Within Leaves (Act.modify g : Prog Unit) w := h

theorem readClock_leaves (w : World) : Within Leaves readClock w :=
  effect_leaves (fun _ _ => Leaves.of_same rfl rfl rfl) w

namespace Backend

theorem persist_leaves (w : World) : Within Leaves persist w := by
  unfold persist
  apply Leaves.gets
  apply Leaves.bind (Within.require Leaves.refl _ _ w)
  intro _ w₁
  apply Within.attempt Leaves.trans
  · apply effect_leaves
    intro c w
    split
    · exact Leaves.of_same rfl rfl rfl
    · exact Leaves.of_same rfl rfl rfl
  · intro e w₂ _
    exact Leaves.of_same rfl rfl rfl

theorem dispatchPower_leaves (w : World) : Within Leaves dispatchPower w := by
  unfold dispatchPower
  apply Leaves.gets
  apply Within.attempt Leaves.trans
  · apply Leaves.bind
    · apply effect_leaves
      intro c w
      dsimp only
      split
      · exact Leaves.of_same rfl rfl rfl
      · exact Leaves.of_same rfl rfl rfl
    · intro _ w₁
      exact Leaves.of_same rfl rfl rfl
  · intro e w₁ _
    apply Leaves.bind (Leaves.of_same rfl rfl rfl)
    intro _ w₂
    apply Leaves.bind (persist_leaves w₂)
    intro _ w₃
    exact Leaves.of_same rfl rfl rfl

theorem tickDispatch_leaves (w : World) : Within Leaves tickDispatch w := by
  unfold tickDispatch
  apply Leaves.gets
  split
  · apply Leaves.bind (readClock_leaves w)
    intro t w₁
    split
    · unfold dispatch
      apply Leaves.bind (Leaves.of_same rfl rfl rfl)
      intro _ w₂
      apply Leaves.bind (Leaves.of_same rfl rfl rfl)
      intro _ w₃
      exact Leaves.bind (persist_leaves w₃) fun _ w₄ => dispatchPower_leaves w₄
    · exact Leaves.refl w₁
  · exact Leaves.refl w

theorem observeLink_leaves (link : NetworkStatus) (w : World) :
    Within Leaves (observeLink S link) w := by
  unfold observeLink
  split
  · apply Leaves.gets
    cases w.carriers.lookup link.interface with
    | some previous =>
      by_cases hp : (previous != link.carrier) = true
      · simp only [if_pos hp]
        exact Leaves.of_same rfl rfl rfl
      · simp only [if_neg hp]
        exact Leaves.of_same rfl rfl rfl
    | none => exact Leaves.of_same rfl rfl rfl
  · exact Leaves.refl w

theorem observeLinks_leaves (links : List NetworkStatus) (w : World) :
    Within Leaves (each (observeLink S) links) w := by
  induction links generalizing w with
  | nil => exact Leaves.refl w
  | cons link links ih => exact Leaves.bind (observeLink_leaves link w) fun _ w₁ => ih w₁

theorem tickObserve_leaves (w : World) : Within Leaves (tickObserve S) w := by
  have hlinks : ∀ w, Within Leaves (observeNetwork S) w := by
    intro w
    unfold observeNetwork
    apply Within.attempt Leaves.trans
    · apply Leaves.bind
      · apply effect_leaves
        intro c w
        rw [answer_quiet]
        exact Leaves.refl w
      · intro links w₁
        apply Leaves.bind (Leaves.of_same rfl rfl rfl)
        intro _ w₂
        exact observeLinks_leaves links w₂
    · intro e w₁ _
      exact Leaves.refl w₁
  unfold tickObserve
  apply Leaves.bind (readClock_leaves w)
  intro t w₁
  apply Leaves.gets
  split
  · apply Leaves.bind (readClock_leaves w₁)
    intro t₂ w₂
    refine Leaves.bind (Leaves.modify (Leaves.of_same rfl rfl rfl)) ?_
    intro _ w₃
    exact hlinks w₃
  · exact Leaves.refl w₁

/-- Expiry wants the hash of the settings file, and readFile refuses. -/
theorem recoverNetwork_leaves (bootstrap : Bool) (w : World) :
    Within Leaves (recoverNetwork S bootstrap) w := by
  intro hs
  obtain ⟨v, hv, hlen⟩ := hs.unreadable
  have ho : w.state.isOpen = true := by rw [State.isOpen, hs.committing]; rfl
  have hleave : Within Leaves (fileHash S) w := by
    apply effect_leaves
    intro c w
    split
    · exact Leaves.refl w
    · split
      · exact Leaves.refl w
      · exact Leaves.of_same rfl rfl rfl
  have hstuck := hleave hs
  unfold recoverNetwork
  rw [gets_bind, if_pos ho]
  dsimp only
  rw [if_pos (by simp [hs.committing])]
  rcases hf : fileHash S w with ⟨o, w₁⟩
  rw [hf] at hstuck
  cases o with
  | ret h =>
    have hd := fileHash_digest hf
    unfold fileLimit at hlen
    rw [hv, digest, if_pos hlen] at hd
    simp at hd
  | raise e =>
    rw [bind_of_raise (bind_of_raise hf)]
    exact hstuck
  | crash =>
    rw [bind_of_crash (bind_of_crash hf)]
    exact hstuck

/-- A prepared transaction whose settings file has grown too large does not expire. -/
theorem tick_leaves (w : World) : Within Leaves (tick S) w := by
  unfold tick
  apply Leaves.gets
  apply Leaves.bind (Within.require Leaves.refl _ _ w)
  intro _ w₁
  apply Leaves.bind (tickObserve_leaves w₁)
  intro _ w₂
  apply Leaves.bind
  · unfold tickExpire
    apply Leaves.gets
    split
    · apply Leaves.bind (readClock_leaves w₂)
      intro t w₃
      split
      · exact recoverNetwork_leaves false w₃
      · exact Leaves.refl w₃
    · exact Leaves.refl w₂
  · intro _ w₃
    exact tickDispatch_leaves w₃

end Backend

theorem perform_tick_leaves (script : List Choice) (hs : Stuck { w with script := script }) :
    Stuck (perform S .tick script w).2 := by
  have hv : Stuck (entered .tick script w) := ⟨hs.committing, hs.unreadable, hs.quiet⟩
  have hg : Within Leaves (guarded S .tick) (entered .tick script w) := by
    apply Leaves.bind
    · exact Leaves.bind (Backend.tick_leaves _) fun _ w₁ => Leaves.refl w₁
    · intro r w₁
      apply Leaves.bind (effect_leaves (fun _ w => Leaves.refl w) w₁)
      intro _ w₂
      exact Leaves.refl w₂
  have h := hg hv
  unfold perform
  rcases hm : guarded S .tick (entered .tick script w) with ⟨o, w₁⟩
  rw [hm] at h
  cases o with
  | ret r => exact ⟨h.committing, h.unreadable, h.quiet⟩
  | raise e => exact ⟨h.committing, h.unreadable, h.quiet⟩
  | crash => exact ⟨h.committing, h.unreadable, h.quiet⟩

def Fixture.prepareAt (t : ℕ) : Event := .call (.prepareNetworkCommit Fixture.id) (idleAt t)

/-- 64-bit milliseconds run out between preparation and its deadline. -/
def Fixture.wrapped : List Event := Fixture.started ++ [beginAt (2^64 - 130000)]

def Fixture.preparedAt2000 : List Event := Fixture.started ++ [beginAt 1000, prepareAt 2000]

/-- After the preparation the settings file grows by one byte more than can be read. -/
def Fixture.outgrown : List Event := preparedAt2000 ++ [.write (List.replicate 1048577 0)]

/-- The last event of a run that ends with a write. -/
theorem stuck_of_write {v : Bytes} {script : List Choice}
    (hc : w.state.pending.transaction.state = .committing) (hv : fileLimit < v.length)
    (hs : ∀ c ∈ script, c.writes = []) : Stuck { w.write v with script := script } :=
  ⟨hc, ⟨v, rfl, hv⟩, hs⟩

/-- Near the end of the 64-bit clock a preparation returns with its new deadline in the past;
and a prepared transaction is still open after any tick once its settings file cannot be read. -/
theorem confirmation_deadlines_missed :
    (let w := run Fixture.site Fixture.device Fixture.wrapped
     let p := perform Fixture.site (.prepareNetworkCommit Fixture.id) (Fixture.idleAt (2^64 - 20000)) w
     steadyClock p.2.trace = true ∧ p.1 = .ret .done ∧ p.2.state.isOpen = true ∧
       p.2.state.pending.deadline ≤ now p.2.trace) ∧
    (let w := run Fixture.site Fixture.device Fixture.outgrown
     (perform Fixture.site .tick (Fixture.idleAt 200000) w).2.state.pending.transaction.state =
       .committing) := by
  refine ⟨⟨?_, ?_, ?_, ?_⟩, ?_⟩
  · decide +kernel
  · decide +kernel
  · decide +kernel
  · decide +kernel
  · have hrun : run Fixture.site Fixture.device Fixture.outgrown = World.write
        (run Fixture.site Fixture.device Fixture.preparedAt2000) (List.replicate 1048577 0) :=
      run_concat _ _ _ _
    have hlen : fileLimit < (List.replicate 1048577 (0 : UInt8)).length := by
      rw [List.length_replicate, fileLimit]
      omega
    dsimp only
    rw [hrun]
    refine (perform_tick_leaves _ (stuck_of_write ?_ hlen ?_)).committing
    · decide +kernel
    · decide

end Monutchee.System
