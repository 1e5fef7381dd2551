import Monutchee.System.Sync

/-!
# The network in force

The journal is written before a proposed network is applied and after a settled one is.
So the network in force is the journal's, or the journal holds an open transaction that
tells what to go back to. Bootstrap applies the network before it knows anything, hence
the statement is about points at which the last bootstrap has returned.
-/

namespace Monutchee.System
open Lib Relation

variable {S : Site} {c c' : Core} {s d : State} {marks t : List Entry}

/-- A start has returned. -/
def startedOnce (t : List Entry) : Bool := t.contains (.returned .start)

/-- Requests are served only after a start returned, and the calls that settle a transaction
without a test of the latch are not made on an object whose journal write failed. -/
def orderly : List Entry → Bool
  | [] => true
  | .call op latched :: t =>
    (!op.serves || startedOnce t) && !(latched && op.unguarded) && orderly t
  | _ :: t => orderly t

/-- The network in force, as far as it is known, against the journal. -/
def Force (r : Option Network) (d : State) : Prop :=
  r = some d.network ∨ d.isOpen = true ∧
    (r = none ∨ r = some d.pending.transaction.network ∨ r = some d.pending.previous)

/-! ### The discipline of the history -/

theorem orderly_cons {e : Entry} (h : orderly (e :: t) = true) : orderly t = true := by
  cases e with
  | call op latched =>
    simp only [orderly, Bool.and_eq_true] at h
    exact h.2
  | _ => exact h

theorem orderly_tail {es : List Entry} (h : orderly (es ++ t) = true) : orderly t = true := by
  induction es with
  | nil => exact h
  | cons e es ih => exact ih (orderly_cons h)

theorem startedOnce_cons {e : Entry} (h : startedOnce t = true) : startedOnce (e :: t) = true := by
  unfold startedOnce at *
  rw [List.contains_cons, h, Bool.or_true]

/-- What the call in progress is, seen from the last entry. -/
theorem callOf_cons (e : Entry) (t : List Entry) :
    callOf (e :: t) = callOf t ∨ callOf (e :: t) = none ∨
      ∃ op latched, e = .call op latched ∧ callOf (e :: t) = some (op, latched) := by
  cases e with
  | call op latched => exact .inr (.inr ⟨op, latched, rfl, rfl⟩)
  | returned op => exact .inr (.inl rfl)
  | raised op => exact .inr (.inl rfl)
  | cut => exact .inr (.inl rfl)
  | constructed => exact .inr (.inl rfl)
  | _ => exact .inl rfl

theorem started_of_serving (ho : orderly t = true) (hs : during Op.serves t = true) :
    startedOnce t = true := by
  induction t with
  | nil => simp [during, callOf] at hs
  | cons e t ih =>
    unfold during at hs ih
    rcases callOf_cons e t with hc | hc | ⟨op, latched, rfl, hc⟩
    · rw [hc] at hs
      exact startedOnce_cons (ih (orderly_cons ho) hs)
    · rw [hc] at hs
      simp at hs
    · rw [hc] at hs
      simp only [orderly, Bool.and_eq_true, Bool.or_eq_true, Bool.not_eq_true'] at ho
      rcases ho.1.1 with hn | hst
      · rw [show op.serves = true from hs] at hn
        simp at hn
      · exact startedOnce_cons hst

theorem not_careless (ho : orderly t = true) : careless t = false := by
  induction t with
  | nil => rfl
  | cons e t ih =>
    have ih' := ih (orderly_cons ho)
    unfold careless at *
    rcases callOf_cons e t with hc | hc | ⟨op, latched, rfl, hc⟩
    · rw [hc]
      exact ih'
    · rw [hc]
    · rw [hc]
      simp only [orderly, Bool.and_eq_true, Bool.not_eq_true'] at ho
      cases latched with
      | true => simpa using ho.1.2
      | false => rfl

theorem serves_of_requestsJob (h : during Op.requestsJob t = true) :
    during Op.serves t = true := by
  unfold during at *
  cases hc : callOf t with
  | none =>
    rw [hc] at h
    simp at h
  | some p =>
    rw [hc] at h
    obtain ⟨op, l⟩ := p
    cases op <;> first | rfl | simp [Op.requestsJob] at h

/-! ### The invariant -/

structure InForce (c : Core) : Prop where
  force : booting c.trace = false → ∀ d, c.journal = some d → d.initialized = true →
    Force (running c.trace) d
  ready : startedOnce c.trace = true → ∃ d, c.journal = some d ∧ d.initialized = true
  unserved : startedOnce c.trace = false → c.state.resetIntent = false ∧
    ∀ d, c.journal = some d → d.resetIntent = false

theorem Force.congr {r : Option Network} (h : Force r d) (hn : s.network = d.network)
    (hp : s.pending.transaction = d.pending.transaction)
    (hv : s.pending.previous = d.pending.previous) : Force r s := by
  unfold Force State.isOpen at *
  rw [hn, hp, hv]
  exact h

theorem Force.of_body {r : Option Network} (h : Force r d) (hb : d.pending.body = s.pending.body)
    (hn : d.network = s.network) : Force r s := by
  have hv : d.pending.body.previous = s.pending.body.previous := by rw [hb]
  exact h.congr hn.symm (transaction_of_body hb).symm (Eq.symm hv)

/-- A live, unlatched and initialized process has its state in the journal. -/
theorem journal_of_initialized (hI : Invariant c) (hF : InForce c) (ha : c.alive = true)
    (hf : c.failed = false) (hn : c.state.initialized = true) : ∃ d, c.journal = some d := by
  cases hj : c.journal with
  | some d => exact ⟨d, rfl⟩
  | none =>
    by_cases hi : c.state.resetIntent = false
    · have h := ((hI.sync ha hf).absent hj hi).2
      rw [hn] at h
      simp at h
    · have hst : startedOnce c.trace = true := by
        by_contra h
        exact hi (hF.unserved (by simpa using h)).1
      obtain ⟨d, hd, _⟩ := hF.ready hst
      rw [hj] at hd
      simp at hd

/-- The state in memory, held against the network in force. -/
theorem force_memory (hI : Invariant c) (hF : InForce c) (ha : c.alive = true)
    (hf : c.failed = false) (hb : booting c.trace = false) (hn : c.state.initialized = true) :
    Force (running c.trace) c.state := by
  obtain ⟨d, hd⟩ := journal_of_initialized hI hF ha hf hn
  have hg := (hI.sync ha hf).present d hd
  have hdi : d.initialized = true := (hg.initialized (.inr hb)).trans hn
  exact (hF.force hb d hd hdi).of_body (hg.pending (.inl (.inr hb))) (hg.network (.inr hb) hdi)

/-! ### Saving -/

theorem startedOnce_other {e : Entry} (he : e ≠ .returned .start) :
    startedOnce (e :: t) = startedOnce t := by
  unfold startedOnce
  have hne : (Entry.returned .start == e) = false := by simpa using fun h => he h.symm
  rw [List.contains_cons, hne, Bool.false_or]

/-- The journal stays, and so does what the history says. -/
theorem InForce.kept (hF : InForce c) (hj : c'.journal = c.journal) (hr : running c'.trace = running c.trace)
    (hb : booting c'.trace = false → booting c.trace = false) (hst : startedOnce c'.trace = startedOnce c.trace)
    (hi : startedOnce c.trace = false → c'.state.resetIntent = false) : InForce c' := by
  refine ⟨?_, ?_, ?_⟩
  · rw [hr, hj]
    exact fun hbt => hF.force (hb hbt)
  · rw [hst, hj]
    exact hF.ready
  · rw [hst, hj]
    exact fun h => ⟨hi h, (hF.unserved h).2⟩

/-- The state that was saved is the journal, and the history says the same. -/
theorem InForce.written (hj : c'.journal = some s) (hr : running c'.trace = running c.trace)
    (hb : booting c'.trace = booting c.trace) (hst : startedOnce c'.trace = startedOnce c.trace)
    (hforce : booting c.trace = false → s.initialized = true → Force (running c.trace) s)
    (hready : startedOnce c.trace = true → s.initialized = true)
    (hi : startedOnce c.trace = false → c'.state.resetIntent = false ∧ s.resetIntent = false) : InForce c' := by
  have honly : ∀ d, c'.journal = some d → d = s := by
    intro d hd
    rw [hj] at hd
    exact (Option.some.inj hd).symm
  refine ⟨?_, ?_, ?_⟩
  · intro hbt d hd hdi
    obtain rfl := honly d hd
    rw [hr]
    exact hforce (hb.symm.trans hbt) hdi
  · intro h
    exact ⟨s, hj, hready (hst.symm.trans h)⟩
  · intro h
    obtain ⟨hstate, hs⟩ := hi (hst.symm.trans h)
    refine ⟨hstate, ?_⟩
    intro d hd
    rw [honly d hd]
    exact hs

theorem inForce_saved (hF : InForce c) (hs : Saved c s marks c')
    (hr : running (marks ++ c.trace) = running c.trace)
    (hb : booting (marks ++ c.trace) = booting c.trace)
    (hst : startedOnce (marks ++ c.trace) = startedOnce c.trace)
    (hforce : c.failed = false → booting c.trace = false → s.initialized = true →
      Force (running c.trace) s)
    (hini : ∀ d, c.journal = some d → d.initialized = true → s.initialized = true)
    (hi : startedOnce c.trace = false → s.resetIntent = false) : InForce c' := by
  have hready : startedOnce c.trace = true → s.initialized = true := by
    intro h
    obtain ⟨d, hd, hdi⟩ := hF.ready h
    exact hini d hd hdi
  have hboot : booting (marks ++ c.trace) = false → booting c.trace = false := hb.symm.trans
  cases hs with
  | refused _ => exact hF.kept rfl hr hboot hst hi
  | cut _ => exact hF.kept rfl hr hboot hst hi
  | ok hf =>
    have hst' := (startedOnce_other (e := .journal c.journal s) (by simp)).trans hst
    exact .written rfl hr hb hst' (hforce hf) hready fun h => ⟨hi h, hi h⟩
  | lost left hf =>
    have hst' := (startedOnce_other (e := .journalFailed c.journal s left) (by simp)).trans hst
    cases left with
    | true => exact .written rfl hr hb hst' (hforce hf) hready fun h => ⟨hi h, hi h⟩
    | false => exact hF.kept rfl hr hboot hst' hi

/-- The memory is initialized when requests are served. -/
theorem initialized_of_serving (hI : Invariant c) (hF : InForce c) (ho : orderly c.trace = true)
    (hs : during Op.serves c.trace = true) : c.state.initialized = true := by
  obtain ⟨d, hd, hdi⟩ := hF.ready (started_of_serving ho hs)
  exact hI.initialized d hd hdi

theorem inForce_save (hF : InForce c) (hI : Invariant c) (ho : orderly c.trace = true)
    (ha : c.alive = true) (hc : Change S c s marks) (hs : Saved c s marks c') : InForce c' := by
  have hini : ∀ d, c.journal = some d → d.initialized = true → s.initialized = true :=
    fun d hd hdi => change_initialized hc (hI.initialized d hd hdi)
  -- Changes that keep the network and the transaction as far as `Force` sees them.
  have same : running (marks ++ c.trace) = running c.trace →
      booting (marks ++ c.trace) = booting c.trace →
      startedOnce (marks ++ c.trace) = startedOnce c.trace →
      (c.state.initialized = true → s.network = c.state.network) →
      (s.initialized = true → c.state.initialized = true) →
      s.pending.transaction.network = c.state.pending.transaction.network →
      s.pending.previous = c.state.pending.previous → s.isOpen = c.state.isOpen →
      (startedOnce c.trace = false → s.resetIntent = false) → InForce c' := by
    intro hr hb hst hnet hin htn hpv hop hi
    refine inForce_saved hF hs hr hb hst ?_ hini hi
    intro hf hbt hsi
    have hmem := force_memory hI hF ha hf hbt (hin hsi)
    unfold Force at hmem ⊢
    rw [hnet (hin hsi), htn, hpv, hop]
    exact hmem
  have keepi : startedOnce c.trace = false → c.state.resetIntent = false :=
    fun h => (hF.unserved h).1
  cases hc with
  | begin p id actor requestId time hf hsv hidle _ _ _ _ =>
    refine inForce_saved hF hs rfl rfl rfl ?_ hini keepi
    intro _ hbt hsi
    rcases force_memory hI hF ha hf hbt hsi with h | ⟨h, _⟩
    · exact .inl h
    · rw [hidle.1] at h
      simp at h
  | prepare time _ _ hp _ _ _ =>
    exact same rfl rfl rfl (fun _ => rfl) id rfl rfl (by simp [State.isOpen, State.prepare, hp,
      TransactionState.isOpen]) keepi
  | settle commit _ _ hr _ =>
    refine inForce_saved hF hs rfl rfl rfl ?_ hini keepi
    intro _ _ _
    exact .inl (by rw [hr]; rfl)
  | job job actor requestId _ hsv _ _ =>
    refine same rfl rfl rfl (fun _ => rfl) id rfl rfl rfl ?_
    intro h
    rw [started_of_serving ho (serves_of_requestsJob hsv)] at h
    simp at h
  | powerFailed _ => exact same rfl rfl rfl (fun _ => rfl) id rfl rfl rfl keepi
  | interrupt _ _ _ _ => exact same rfl rfl rfl (fun _ => rfl) id rfl rfl rfl keepi
  | configure config _ hsv _ hn =>
    have hin := initialized_of_serving hI hF ho hsv
    exact same rfl rfl rfl hn (fun _ => hin) rfl rfl rfl keepi
  | keep => exact same rfl rfl rfl (fun _ => rfl) id rfl rfl rfl keepi
  | adopt _ _ hr =>
    refine inForce_saved hF hs rfl rfl rfl ?_ hini keepi
    intro _ hbt _
    rcases hr with hb | hr
    · rw [hbt] at hb
      simp at hb
    · exact .inl hr
  | completeReset _ hb _ _ _ =>
    refine inForce_saved hF hs rfl rfl rfl ?_ hini fun _ => rfl
    intro _ hbt
    rw [hb] at hbt
    simp at hbt

theorem inForce_dispatch (hF : InForce c) (hI : Invariant c) (ha : c.alive = true)
    (hs : Saved { c with jobDeadline := 0 } (c.state.setJob .dispatched) [.dispatching] c') :
    InForce c' := by
  have hF' : InForce { c with jobDeadline := 0 } := ⟨hF.force, hF.ready, hF.unserved⟩
  refine inForce_saved hF' hs rfl rfl rfl ?_ hI.initialized fun h => (hF.unserved h).1
  intro hf hbt hsi
  have hmem := force_memory hI hF ha hf hbt hsi
  exact hmem

/-! ### Other moves -/

/-- Entries that say nothing about the network, the boot phase or start. -/
theorem inForce_entry {e : Entry} (hF : InForce c) (hr : running (e :: c.trace) = running c.trace)
    (hb : booting (e :: c.trace) = false → booting c.trace = false) (he : e ≠ .returned .start) :
    InForce { c with trace := e :: c.trace } := by
  exact hF.kept rfl hr hb (startedOnce_other he) fun h => (hF.unserved h).1

theorem sound_of_latch (ho : orderly c.trace = true)
    (hl : c.failed = true → careless c.trace = true) : c.failed = false := by
  by_contra h
  have hcl := hl (by simpa using h)
  rw [not_careless ho] at hcl
  simp at hcl

theorem inForce_network (hF : InForce c) (hI : Invariant c) (ho : orderly c.trace = true)
    (ha : c.alive = true) {n : Network} {bootstrap ok : Bool} (hg : NetworkGuard c n) :
    InForce { c with
      trace := (if ok then .network n bootstrap else .networkFailed n bootstrap) :: c.trace } := by
  have hne : (if ok then Entry.network n bootstrap else .networkFailed n bootstrap) ≠
      .returned .start := by cases ok <;> simp
  have hst := startedOnce_other (t := c.trace) hne
  have hrun : running ((if ok then Entry.network n bootstrap else .networkFailed n bootstrap) ::
      c.trace) = if ok then some n else none := by cases ok <;> rfl
  have hbt : booting ((if ok then Entry.network n bootstrap else .networkFailed n bootstrap) ::
      c.trace) = booting c.trace := by cases ok <;> rfl
  -- The journal holds a transaction to which the network belongs.
  have member : booting c.trace = false → ∀ d, c.journal = some d →
      d.isOpen = true ∧ (n = d.pending.transaction.network ∨ n = d.pending.previous) := by
    intro hbf d hd
    cases hg with
    | proposed hf hj hop hn =>
      rw [hj] at hd
      injection hd with hd
      subst hd
      exact ⟨hop, .inl hn⟩
    | settling commit hop _ hl hn =>
      have hf := sound_of_latch ho hl
      obtain ⟨d', hd', hbody⟩ := hI.journal_of_open ha hf hop
      rw [hd] at hd'
      injection hd' with hd'
      subst hd'
      have hv : d.pending.body.previous = c.state.pending.body.previous := by rw [hbody]
      refine ⟨(open_of_body hbody).trans hop, ?_⟩
      cases commit with
      | true =>
        left
        rw [hn, transaction_of_body hbody]
        rfl
      | false =>
        right
        exact hn.trans (Eq.symm hv)
    | booting hb =>
      rw [hbf] at hb
      simp at hb
  refine ⟨?_, ?_, ?_⟩
  · intro hb d hd _
    obtain ⟨hop, hn⟩ := member (hbt.symm.trans hb) d hd
    refine .inr ⟨hop, ?_⟩
    dsimp only
    rw [hrun]
    cases ok with
    | false => exact .inl rfl
    | true =>
      rcases hn with hn | hn
      · exact .inr (.inl (by rw [hn]; rfl))
      · exact .inr (.inr (by rw [hn]; rfl))
  · intro h
    exact hF.ready (hst.symm.trans h)
  · intro h
    exact hF.unserved (hst.symm.trans h)

theorem inForce_bootstrap (hF : InForce c) (hI : Invariant c) (ho : orderly c.trace = true)
    (hb : Booted c) : InForce { c with trace := .returned .bootstrap :: c.trace } := by
  have hf := sound_of_latch ho hb.latch
  have hst := startedOnce_other (e := .returned .bootstrap) (t := c.trace) (by simp)
  refine ⟨?_, ?_, ?_⟩
  · intro _ d hd hdi
    have hg := (hI.sync hb.alive hf).present d hd
    have hn : c.state.initialized = true := (hg.initialized (.inl hb.reset)).symm.trans hdi
    left
    rw [hg.network (.inl hb.reset) hdi]
    exact hb.network hn
  · intro h
    exact hF.ready (hst.symm.trans h)
  · intro h
    exact hF.unserved (hst.symm.trans h)

theorem inForce_start (hF : InForce c) (hI : Invariant c) (ho : orderly c.trace = true)
    (hr : Resumed c) : InForce { c with trace := .returned .start :: c.trace } := by
  have hf := sound_of_latch ho hr.latch
  refine ⟨fun hb d hd hdi => hF.force hb d hd hdi, ?_, ?_⟩
  · intro _
    by_cases hst : startedOnce c.trace = true
    · exact hF.ready hst
    · have hi := (hF.unserved (by simpa using hst)).1
      have hn := hr.initialized hi
      obtain ⟨d, hd⟩ := journal_of_initialized hI hF hr.alive hf hn
      have hg := (hI.sync hr.alive hf).present d hd
      exact ⟨d, hd, (hg.initialized (.inl hi)).trans hn⟩
  · intro h
    simp [startedOnce] at h

theorem inForce_loose (hF : InForce c) (hl : Loose S c s marks) :
    InForce { c with state := s, trace := marks ++ c.trace } := by
  cases hl with
  | wipe hi hb =>
    have h := inForce_entry (e := .cleared) hF rfl id (by simp)
    exact ⟨h.force, h.ready, h.unserved⟩
  | _ => exact ⟨hF.force, hF.ready, hF.unserved⟩

theorem loaded_intent (P : Profile) (j : Option State) :
    (Backend.loaded P j).resetIntent = (j.getD { configuration := P.defaults }).resetIntent := by
  unfold Backend.loaded Backend.migrate
  split
  · rfl
  · rfl

theorem inForce_move (hj : ∀ p ∈ S.profile.resetPaths, inside p S.journalPath = false)
    (hm : Move S c c') (ho : orderly c.trace = true) (hI : Invariant c) (hF : InForce c) :
    InForce c' := by
  cases hm with
  | note e he =>
    refine inForce_entry hF ?_ ?_ ?_
    · cases e <;> first | rfl | simp [Entry.inert] at he
    · cases e <;> first | exact id | simp [Entry.inert] at he
    · rintro rfl
      simp [Entry.inert] at he
  | write v =>
    have h := inForce_entry (e := .written v c.journal) hF rfl id (by simp)
    exact ⟨h.force, h.ready, h.unserved⟩
  | hash h _ => exact inForce_entry hF rfl id (by simp)
  | discovered config ha hn =>
    refine ⟨?_, fun h => hF.ready ?_, fun h => hF.unserved ?_⟩
    · intro _ d hd hdi
      rw [hI.initialized d hd hdi] at hn
      simp at hn
    · exact (startedOnce_other (e := .discovered config) (by simp)).symm.trans h
    · exact (startedOnce_other (e := .discovered config) (by simp)).symm.trans h
  | remove p _ hb _ hr =>
    have hne : inside p S.journalPath = false := by
      obtain ⟨r, hr, hrp⟩ := hr
      have hrj := hj r hr
      by_contra h
      rw [inside_trans hrp (by simpa using h)] at hrj
      simp at hrj
    have h := inForce_entry (e := .removed p) hF rfl id (by simp)
    simp only [hne]
    exact ⟨h.force, h.ready, h.unserved⟩
  | network n bootstrap ok ha hg => exact inForce_network hF hI ho ha hg
  | power action _ _ _ _ _ => exact inForce_entry hF rfl id (by simp)
  | arm deadline _ _ => exact ⟨hF.force, hF.ready, hF.unserved⟩
  | dispatch ha _ hs => exact inForce_dispatch hF hI ha hs
  | save ha hc hs => exact inForce_save hF hI ho ha hc hs
  | loose _ hl => exact inForce_loose hF hl
  | call op =>
    refine inForce_entry hF rfl ?_ (by simp)
    cases op <;> first | exact id | exact fun hb => by simp [booting] at hb
  | returned op hb hr =>
    by_cases hop : op = .bootstrap
    · subst hop
      exact inForce_bootstrap hF hI ho (hb rfl)
    · by_cases hos : op = .start
      · subst hos
        exact inForce_start hF hI ho (hr rfl)
      · refine inForce_entry hF rfl ?_ (by simpa using hos)
        cases op <;> first | exact id | exact absurd rfl hop
  | raised op _ => exact inForce_entry hF rfl id (by simp)
  | cut =>
    have h := inForce_entry (e := .cut) hF rfl id (by simp)
    exact ⟨h.force, h.ready, h.unserved⟩
  | stop => exact ⟨hF.force, hF.ready, hF.unserved⟩
  | construct =>
    have h := inForce_entry (e := .constructed) hF rfl id (by simp)
    refine ⟨h.force, h.ready, ?_⟩
    intro hst
    obtain ⟨_, hd⟩ := h.unserved hst
    refine ⟨?_, hd⟩
    dsimp only
    rw [loaded_intent]
    cases hjn : c.journal with
    | none => rfl
    | some d => exact hd d hjn

/-! ### Whole runs -/

section Runs
variable (S) (hj : ∀ p ∈ S.profile.resetPaths, inside p S.journalPath = false)
include hj

theorem inForce_path {a b : Core} (p : Path S a b) (ho : orderly b.trace = true)
    (h : Invariant a ∧ InForce a) : Invariant b ∧ InForce b := by
  have back : ∀ a b : Core, Move S a b → orderly b.trace = true → orderly a.trace = true := by
    intro a b hm h
    obtain ⟨fs, hfs⟩ := hm.grows
    rw [hfs] at h
    exact orderly_tail h
  have step : ∀ a b : Core, Move S a b → orderly b.trace = true → Invariant a ∧ InForce a →
      Invariant b ∧ InForce b :=
    fun a b hm hb hi => ⟨hi.1.move hm, inForce_move hj hm (back a b hm hb) hi.1 hi.2⟩
  exact path_keeps_while (I := fun c => Invariant c ∧ InForce c) back step p ho h

theorem inForce_run (settings : Option Bytes) (tree : List Bytes) (status : StatusFile)
    (es : List Event) (ho : orderly (run S (fresh settings tree status) es).trace = true) :
    Invariant (run S (fresh settings tree status) es).toCore ∧
      InForce (run S (fresh settings tree status) es).toCore := by
  apply inForce_path S hj (run_path S _ es) ho
  refine ⟨Invariant.fresh settings tree status, ?_, ?_, ?_⟩
  · intro _ d hd
    simp [fresh] at hd
  · intro h
    simp [fresh, startedOnce] at h
  · intro _
    exact ⟨rfl, fun d hd => by simp [fresh] at hd⟩

/-- When bootstrap or start returns, the platform, the memory and the journal agree. -/
theorem inForce_returned {op : Op} {script : List Choice} {r : Backend.Reply} {w w' : World}
    (h : Invariant w.toCore ∧ InForce w.toCore) (hop : op = .bootstrap ∨ op = .start)
    (ha : w.alive = true) (hp : perform S op script w = (.ret r, w')) (ho : orderly w'.trace = true)
    (hb : booting w'.trace = false) (hn : w'.state.initialized = true)
    (hi : w'.state.resetIntent = false) :
    ∃ d, w'.journal = some d ∧ running w'.trace = some d.network ∧
      running w'.trace = some w'.state.network := by
  obtain ⟨w₁, w₂, hpath, rfl, hret, hfr⟩ := perform_returned op script ha hp
  have hboot := booted_of_returned op script hret hfr
  have hres := resumed_of_returned op script hret hfr
  have ho₁ : orderly w₁.trace = true := orderly_cons ho
  obtain ⟨hI, hF⟩ := inForce_path S hj hpath ho₁ h
  have hal : w₁.alive = true ∧ w₁.failed = false := by
    rcases hop with rfl | rfl
    · exact ⟨(hboot rfl).alive, sound_of_latch ho₁ (hboot rfl).latch⟩
    · exact ⟨(hres rfl).alive, sound_of_latch ho₁ (hres rfl).latch⟩
  obtain ⟨d, hd⟩ := journal_of_initialized hI hF hal.1 hal.2 hn
  have hg := (hI.sync hal.1 hal.2).present d hd
  have hdi : d.initialized = true := (hg.initialized (.inl hi)).trans hn
  have hnet : d.network = w₁.state.network := hg.network (.inl hi) hdi
  have hrun : running w₁.trace = some w₁.state.network := by
    rcases hop with rfl | rfl
    · exact (hboot rfl).network hn
    · have hbt : booting w₁.trace = false := hb
      rcases force_memory hI hF hal.1 hal.2 hbt hn with hr | ⟨hop, _⟩
      · exact hr
      · rw [(hres rfl).closed hi] at hop
        simp at hop
  exact ⟨d, hd, by rw [hnet]; exact hrun, hrun⟩

end Runs

/-- Once a start has returned, at every point at which the last bootstrap has returned the
network in force is the journal's, or the journal holds an open transaction and the network
in force is unknown or one of its two; and when bootstrap or start returns, the platform, the
memory and the journal have the same network. -/
theorem network_follows_journal (S : Site)
    (hj : ∀ p ∈ S.profile.resetPaths, inside p S.journalPath = false) (settings : Option Bytes)
    (tree : List Bytes) (status : StatusFile) (es : List Event) :
    let w := run S (fresh settings tree status) es
    orderly w.trace = true → startedOnce w.trace = true →
    (booting w.trace = false → ∃ d, w.journal = some d ∧
      (running w.trace = some d.network ∨ d.isOpen = true ∧
        (running w.trace = none ∨ running w.trace = some d.pending.transaction.network ∨
          running w.trace = some d.pending.previous))) ∧
    (∀ op script r w', op = .bootstrap ∨ op = .start → w.alive = true →
      perform S op script w = (.ret r, w') → orderly w'.trace = true → booting w'.trace = false →
      w'.state.initialized = true → w'.state.resetIntent = false →
      ∃ d, w'.journal = some d ∧ running w'.trace = some d.network ∧
        running w'.trace = some w'.state.network) := by
  intro w ho hst
  have h := inForce_run S hj settings tree status es ho
  refine ⟨?_, ?_⟩
  · intro hb
    obtain ⟨d, hd, hdi⟩ := h.2.ready hst
    exact ⟨d, hd, h.2.force hb d hd hdi⟩
  · intro op script r w' hop ha hp ho' hb hn hi
    exact inForce_returned S hj h hop ha hp ho' hb hn hi

theorem network_follows_journal_pending :
    let w := run Fixture.site Fixture.device (Fixture.started ++ [Fixture.begin])
    ∃ d, w.journal = some d ∧ (running w.trace = some d.network ∨ d.isOpen = true ∧
      (running w.trace = none ∨ running w.trace = some d.pending.transaction.network ∨
        running w.trace = some d.pending.previous)) :=
  (network_follows_journal Fixture.site (by decide) (some Fixture.previous) [] .missing
    (Fixture.started ++ [Fixture.begin]) (by decide) (by decide)).1 (by decide)

/-- A start returns, a later bootstrap fails in the platform, and start is called all the same. -/
def Fixture.startedAfterFailedBoot : List Event :=
  started ++ [.restart [], .call .bootstrap [{ fails := true }], .restart [], .call .start []]

theorem network_unknown_after_start :
    let w := run Fixture.site Fixture.device Fixture.startedAfterFailedBoot
    w.trace.head? = some (.returned .start) ∧ w.state.initialized = true ∧
      w.state.resetIntent = false ∧ running w.trace = none ∧
      ∃ d, w.journal = some d ∧ d.isOpen = false := by
  refine ⟨?_, ?_, ?_, ?_, ?_⟩
  · decide
  · decide
  · decide
  · decide
  · exact Fixture.journal_of_any (by decide)

end Monutchee.System
