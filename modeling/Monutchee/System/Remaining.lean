import Monutchee.System.Checks
import Monutchee.System.Deadline

/-!
# The remaining time of a proposal

networkTransaction (storage.cpp:396-402) compares the clock with the deadline and then
reads the clock again for the difference, which is computed in 64 bits. Along clock
readings that never go back the deadline of an open transaction is at most 120 seconds
ahead of the last reading, so the difference is in range unless the deadline passes
between the two readings.
-/

namespace Monutchee.System
open Lib Lib.Act Relation

variable {S : Site} {t : List Entry} {w w' : World}

/-- No reading of the clock is smaller than the one before it. -/
def risingClock : List Entry → Bool
  | [] => true
  | .reading u :: t => decide (now t ≤ u) && risingClock t
  | _ :: t => risingClock t

theorem risingClock_cons {e : Entry} (h : risingClock (e :: t) = true) : risingClock t = true := by
  cases e with
  | reading u =>
    simp only [risingClock, Bool.and_eq_true] at h
    exact h.2
  | _ => exact h

/-- The last reading is the largest. -/
theorem le_now_of_rising {u : ℕ} (h : risingClock t = true) (hu : .reading u ∈ t) : u ≤ now t := by
  induction t with
  | nil => simp at hu
  | cons e t ih =>
    have ih := ih (risingClock_cons h)
    cases e with
    | reading v =>
      have hv : now (.reading v :: t) = v := rfl
      simp only [risingClock, Bool.and_eq_true, decide_eq_true_eq] at h
      rw [hv]
      rcases List.mem_cons.mp hu with hu | hu
      · injection hu with hu
        omega
      · have hle := ih hu
        omega
    | _ => exact ih (by simpa using hu)

/-- A deadline of 64 bits, at most 120 seconds ahead. -/
def Near (t : List Entry) (_ : TransactionState) (deadline : ℕ) : Prop :=
  deadline < 2^64 ∧ deadline ≤ now t + 120000

theorem add64_lt (a b : ℕ) : add64 a b < 2^64 := Nat.mod_lt _ (by omega)

theorem near_dated : Dated (fun t => risingClock t = true) Near where
  tail _ _ h := risingClock_cons h
  entry e t st d hok _ h := by
    obtain ⟨hlt, hle⟩ := h
    have hnow : now t ≤ now (e :: t) := by
      cases e with
      | reading u =>
        simp only [risingClock, Bool.and_eq_true, decide_eq_true_eq] at hok
        exact hok.1
      | _ => exact Nat.le_refl _
    exact ⟨hlt, by omega⟩
  begin id config b t time _ hlast := by
    have hnow : now (.begun id config b :: t) = time := by
      change (lastReading t).getD 0 = time
      rw [hlast]
      rfl
    have hd := add64_le time 120000
    exact ⟨add64_lt _ _, by omega⟩
  prepare t time u d hok htime _ _ _ := by
    have hmem : Entry.reading time ∈ t := (List.takeWhile_prefix _).subset htime
    have hle := le_now_of_rising hok hmem
    have hd := add64_le time 30000
    exact ⟨add64_lt _ _, by omega⟩

/-! ### The two readings -/

/-- The answer of the clock to its n-th question from here on. -/
def World.upcoming (w : World) (n : ℕ) : ℕ := (w.script.getD n {}).time % 2^64

theorem readClock_upcoming {u : ℕ} (h : readClock w = (.ret u, w')) :
    u = w.upcoming 0 ∧ ∀ n, w'.upcoming n = w.upcoming (n + 1) := by
  have hscript : ∀ vs (v : World), (v.authority vs).script = v.script :=
    fun vs v => (authority_rest vs v).2.2
  unfold readClock at h
  rw [effect_apply] at h
  split at h
  · simp at h
  · injection h with hr hw
    injection hr with hr
    subst hr hw
    unfold World.upcoming
    rw [hscript]
    unfold World.draw
    cases hs : w.script with
    | nil => exact ⟨rfl, fun n => by simp [World.log, hs]⟩
    | cons c cs => exact ⟨rfl, fun n => rfl⟩

namespace Backend

/-- beginNetwork up to its last statement, which asks networkTransaction. -/
def proposeNetwork (S : Site) (p : NetworkProposal) (actor requestId : Bytes) : Prog Unit := do
  checkProposal S p
  let id ← randomId
  let t ← readClock
  let s ← gets (·.state)
  setState (fun s => { s with pending := proposed s p id actor requestId t })
    [.begun id s.configuration s.initialized]
  persist
  attempt (platformNetwork p.network false) fun e => do
    settleNetwork false false .recovery
    raise e
  event (pendingEvent (← gets (·.state)))

theorem beginNetwork_eq (S : Site) (p : NetworkProposal) (actor requestId : Bytes) :
    beginNetwork S p actor requestId =
      proposeNetwork S p actor requestId >>= fun _ => networkTransaction S := by
  unfold beginNetwork proposeNetwork
  simp only [bind_assoc]

/-- What a call does before it looks at the remaining time. -/
def beforeRemaining (S : Site) : Op → Prog Unit
  | .beginNetwork p actor requestId => do
    proposeNetwork S p actor requestId
    tick S
  | _ => tick S

/-- The deadline of the open transaction passes between the two readings to come, and the
difference does not come round to less than 120 seconds again. -/
def overtaken (w : World) : Bool :=
  w.state.isOpen && w.upcoming 0 < w.state.pending.deadline &&
    w.state.pending.deadline < w.upcoming 1 &&
    w.upcoming 1 < w.state.pending.deadline + (2^64 - 120000)

theorem remaining_ret {ms : ℕ} (h : remaining w.state w = (.ret ms, w')) :
    Frame [] w w' ∧
      ((w.state.isOpen = true ∧ w.upcoming 0 < w.state.pending.deadline ∧
          now w'.trace = w.upcoming 1 ∧
          ms = (w.state.pending.deadline + 2^64 - w.upcoming 1) % 2^64) ∨
        (¬ (w.state.isOpen = true ∧ w.upcoming 0 < w.state.pending.deadline) ∧ ms = 0)) := by
  unfold remaining at h
  by_cases ho : w.state.isOpen = true
  · rw [if_pos ho] at h
    obtain ⟨u, w₁, hu, h⟩ := bind_ret h
    obtain ⟨rfl, hnext⟩ := readClock_upcoming hu
    by_cases hlt : w.upcoming 0 < w.state.pending.deadline
    · rw [if_pos hlt] at h
      obtain ⟨v, w₂, hv, h⟩ := bind_ret h
      obtain ⟨rfl, -⟩ := readClock_upcoming hv
      injection h with hr hw
      injection hr with hr
      subst hr hw
      have hnow : now w₂.trace = w.upcoming 1 := by
        rw [now, readClock_last hv, ← hnext 0]
        rfl
      rw [hnext 0]
      exact ⟨(readClock_ret hu).comp (readClock_ret hv) rfl, .inl ⟨ho, hlt, hnow, rfl⟩⟩
    · rw [if_neg hlt] at h
      injection h with hr hw
      injection hr with hr
      subst hr hw
      exact ⟨readClock_ret hu, .inr ⟨fun hn => hlt hn.2, rfl⟩⟩
  · rw [if_neg ho] at h
    injection h with hr hw
    injection hr with hr
    subst hr hw
    exact ⟨Frame.refl w, .inr ⟨fun hn => ho hn.1, rfl⟩⟩

theorem networkTransaction_ret {tx : NetworkTransaction}
    (h : networkTransaction S w = (.ret tx, w')) :
    ∃ w₁, tick S w = (.ret (), w₁) ∧ remaining w₁.state w₁ = (.ret tx.remainingMs, w') := by
  obtain ⟨_, w₁, htick, h⟩ := bind_ret h
  rw [gets_bind] at h
  obtain ⟨ms, w₂, hms, h⟩ := bind_ret h
  injection h with hr hw
  injection hr with hr
  subst hr hw
  exact ⟨w₁, htick, hms⟩

/-- Every call that reports a transaction ends with the query for the remaining time. -/
theorem call_transaction {op : Op} {tx : NetworkTransaction}
    (h : call S op w = (.ret (.transaction tx), w')) :
    ∃ w₁, beforeRemaining S op w = (.ret (), w₁) ∧
      remaining w₁.state w₁ = (.ret tx.remainingMs, w') := by
  cases op with
  | beginNetwork p actor requestId =>
    obtain ⟨r, w₂, hb, h⟩ := bind_ret h
    injection h with hr hw
    injection hr with hr
    injection hr with hr
    subst hr hw
    rw [beginNetwork_eq] at hb
    obtain ⟨_, w₃, hpro, hb⟩ := bind_ret hb
    obtain ⟨w₁, htick, hms⟩ := networkTransaction_ret hb
    exact ⟨w₁, (bind_of_ret hpro).trans htick, hms⟩
  | networkTransaction =>
    obtain ⟨r, w₂, hb, h⟩ := bind_ret h
    injection h with hr hw
    injection hr with hr
    injection hr with hr
    subst hr hw
    exact networkTransaction_ret hb
  | _ =>
    obtain ⟨_, _, _, h⟩ := bind_ret h
    injection h with hr _
    injection hr with hr
    simp at hr

end Backend

/-- A frame of no entries adds writes of the authority and readings; the checkpoint adds only
writes. -/
theorem checkpoint_now (h : checkpoint w = (.ret (), w')) : now w'.trace = now w.trace := by
  have hw : ∀ vs (v : World), lastReading (v.authority vs).trace = lastReading v.trace := by
    intro vs
    induction vs with
    | nil => exact fun _ => rfl
    | cons x vs ih => exact fun v => ih (v.write x)
  obtain ⟨c, w₁, w₂, hc, hop, rfl⟩ := effect_ret h
  injection hop with _ hop
  subst hop
  have ht : w₁.trace = w.trace := congrArg Core.trace hc
  rw [now, hw, ht, now]

/-- The clock of 64 bits. -/
theorem difference_le {d u : ℕ} (hd : d < 2^64) (hu : u < 2^64) (hnear : d ≤ u + 120000) :
    (d + 2^64 - u) % 2^64 ≤ 120000 ↔ ¬ (d < u ∧ u < d + (2^64 - 120000)) := by
  omega

/-- The remaining time that a call reports, after any run whose clock readings never go back,
is at most 120 seconds exactly if the deadline does not pass between the two readings that
the report is made from. -/
theorem remaining_time_bounded (S : Site) (settings : Option Bytes) (tree : List Bytes)
    (status : StatusFile) (es : List Event) (op : Op) (script : List Choice) :
    let w := run S (fresh settings tree status) es
    ∀ tx w', w.alive = true → perform S op script w = (.ret (.transaction tx), w') →
      risingClock w'.trace = true →
      (tx.remainingMs ≤ 120000 ↔
        Backend.overtaken (Backend.beforeRemaining S op (entered op script w)).2 = false) := by
  intro w tx w' ha h hrise
  have hpath : Path S (fresh settings tree status).toCore w'.toCore := by
    have hp := perform_path (S := S) op script ha
    rw [h] at hp
    exact ReflTransGen.trans (run_path S _ es) hp
  have hnear : Everywhere (Holds Near w'.trace) w'.toCore :=
    dated_path near_dated hpath hrise (Invariant.fresh settings tree status)
      ⟨holds_of_closed rfl, by simp [fresh]⟩
  obtain ⟨w₃, w₄, hcall, hcheck, rfl⟩ := perform_ret h
  obtain ⟨w₁, hbefore, hms⟩ := Backend.call_transaction hcall
  rw [hbefore]
  obtain ⟨hframe, hcases⟩ := Backend.remaining_ret hms
  have hstate : w₄.state = w₁.state := ((checkpoint_spec (S := S) w₃).post _ _ hcheck).state.trans hframe.state
  rcases hcases with ⟨ho, hlt, hnow, heq⟩ | ⟨hn, hz⟩
  · obtain ⟨hd, hle⟩ := hnear.memory (by rw [← ho, ← hstate]; rfl)
    have hnow' : now (w₄.log (.returned op)).trace = w₁.upcoming 1 :=
      (checkpoint_now hcheck).trans hnow
    have hdead : (w₄.log (.returned op)).state.pending.deadline = w₁.state.pending.deadline := by
      rw [← hstate]
      rfl
    rw [hdead] at hd hle
    rw [hnow'] at hle
    have hu : w₁.upcoming 1 < 2^64 := Nat.mod_lt _ (by omega)
    rw [heq, difference_le hd hu hle]
    unfold Backend.overtaken
    simp [ho, hlt]
  · have hf : Backend.overtaken w₁ = false := by
      unfold Backend.overtaken
      by_cases ho : w₁.state.isOpen = true
      · have hlt : ¬ w₁.upcoming 0 < w₁.state.pending.deadline := fun hlt => hn ⟨ho, hlt⟩
        simp [hlt]
      · simp [ho]
    rw [hf, hz]
    simp

/-- A transaction begun at 1000, whose deadline is 121000. -/
def Fixture.begunAt1000 : World :=
  run site (fresh (some previous) [] .missing) (started ++ [beginAt 1000])

/-- Its report with a given remaining time. -/
def Fixture.reported (ms : ℕ) : NetworkTransaction :=
  { begunAt1000.state.pending.transaction with remainingMs := ms }

theorem remaining_time_bounded_query :
    (perform Fixture.site .networkTransaction (Fixture.idleAt 120999) Fixture.begunAt1000).1 =
      .ret (.transaction (Fixture.reported 1)) ∧ (Fixture.reported 1).remainingMs ≤ 120000 := by
  obtain ⟨ha, hr, hrise, ho⟩ : Fixture.begunAt1000.alive = true ∧
      (perform Fixture.site .networkTransaction (Fixture.idleAt 120999) Fixture.begunAt1000).1 =
        .ret (.transaction (Fixture.reported 1)) ∧
      risingClock (perform Fixture.site .networkTransaction (Fixture.idleAt 120999)
        Fixture.begunAt1000).2.trace = true ∧
      Backend.overtaken (Backend.beforeRemaining Fixture.site .networkTransaction
        (entered .networkTransaction (Fixture.idleAt 120999) Fixture.begunAt1000)).2 = false := by
    decide +kernel
  refine ⟨hr, ?_⟩
  unfold Fixture.begunAt1000 at ha hr hrise ho
  rcases hp : perform Fixture.site .networkTransaction (Fixture.idleAt 120999)
    (run Fixture.site (fresh (some Fixture.previous) [] .missing)
      (Fixture.started ++ [Fixture.beginAt 1000])) with ⟨o, w'⟩
  rw [hp] at hr hrise
  have hret : o = .ret (.transaction (Fixture.reported 1)) := hr
  rw [hret] at hp
  exact (remaining_time_bounded _ _ _ _ _ _ _ _ _ ha hp hrise).mpr ho

/-- A query whose readings are 120999 up to the comparison with the deadline and 121001 after it. -/
def Fixture.overtaking : List Choice :=
  List.replicate 5 { time := 120999 } ++ List.replicate 3 { time := 121001 }

/-- The deadline passes between the two readings, and 2^64 - 1 milliseconds are reported. -/
theorem remaining_time_wraps :
    Fixture.begunAt1000.alive = true ∧
      (perform Fixture.site .networkTransaction Fixture.overtaking Fixture.begunAt1000).1 =
        .ret (.transaction (Fixture.reported (2^64 - 1))) ∧
      risingClock (perform Fixture.site .networkTransaction Fixture.overtaking
        Fixture.begunAt1000).2.trace = true ∧
      ¬ (Fixture.reported (2^64 - 1)).remainingMs ≤ 120000 := by
  decide +kernel

end Monutchee.System
