import Monutchee.System.Sync

/-!
# Agreement of the journal and the settings file

The settings authority writes its file in one process, the manager settles the network
transaction in another, and only the hash of the file connects the two. While the
transaction is open the file holds the previous content or, once the commit is prepared,
the candidate; a settlement reads the hash first and therefore records what the file says.
-/

namespace Monutchee.System
open Lib Relation

variable {S : Site} {c c' : Core} {s : State} {marks : List Entry}

/-! ### What the history must satisfy -/

/-- `fileHash(active_settings) == h`, for a file that can be read. -/
def hashIs (S : Site) (settings : Option Bytes) (h : Bytes) : Bool :=
  match digest S settings with
  | .ok v => v == h
  | .error _ => false

/-- While the durable transaction is open the authority writes only the candidate, only in
the state "committing" and only after prepareNetworkCommit returned. -/
def allowed (S : Site) (t : List Entry) : Entry → Bool
  | .written v (some d) =>
    !d.isOpen || (d.pending.transaction.state == .committing &&
      hashIs S (some v) d.pending.candidateHash &&
      t.contains (.returned (.prepareNetworkCommit d.pending.transaction.id)))
  | _ => true

def obeys (S : Site) : List Entry → Bool
  | [] => true
  | e :: t => allowed S t e && obeys S t

/-- No write falls between a reading of the hash and the journal write that acts on it. -/
def undisturbed : List Entry → Bool
  | [] => true
  | e :: t => !(e.isWritten && (hashRead t).isSome) && undisturbed t

/-- The journal write that settles an open transaction. -/
def Entry.settles : Entry → Bool
  | .journal (some old) new => old.isOpen && new.isSettled
  | .journalFailed (some old) new true => old.isOpen && new.isSettled
  | _ => false

def sinceSettled (t : List Entry) : List Entry := t.takeWhile fun e => !e.settles

def Entry.saves : Entry → Option State
  | .journal _ new | .journalFailed _ new _ => some new
  | _ => none

/-- The state that settled the last transaction. -/
def settledState (t : List Entry) : Option State := (t.find? (·.settles)).bind Entry.saves

def rewritten (t : List Entry) : Bool := (sinceSettled t).any (·.isWritten)

def Entry.erases (S : Site) : Entry → Bool
  | .removed p => inside p S.profile.activeSettings
  | _ => false

def erased (S : Site) (t : List Entry) : Bool := (sinceSettled t).any (·.erases S)

def Untouched (S : Site) (t : List Entry) : Prop := rewritten t = false ∧ erased S t = false

theorem obeys_tail {es t : List Entry} (h : obeys S (es ++ t) = true) : obeys S t = true := by
  induction es with
  | nil => exact h
  | cons e es ih =>
    simp only [List.cons_append, obeys, Bool.and_eq_true] at h
    exact ih h.2

theorem undisturbed_tail {es t : List Entry} (h : undisturbed (es ++ t) = true) :
    undisturbed t = true := by
  induction es with
  | nil => exact h
  | cons e es ih =>
    simp only [List.cons_append, undisturbed, Bool.and_eq_true] at h
    exact ih h.2

theorem untouched_tail {e : Entry} {t : List Entry} (he : e.settles = false)
    (h : Untouched S (e :: t)) : Untouched S t ∧ e.isWritten = false ∧ e.erases S = false := by
  unfold Untouched rewritten erased sinceSettled at h ⊢
  rw [List.takeWhile_cons_of_pos (by simp [he])] at h
  simp only [List.any_cons, Bool.or_eq_false_iff] at h
  exact ⟨⟨h.1.2, h.2.2⟩, h.1.1, h.2.1⟩

theorem untouched_marks {t : List Entry} (hm : ∀ e ∈ marks, e.settles = false)
    (h : Untouched S (marks ++ t)) : Untouched S t := by
  induction marks with
  | nil => exact h
  | cons e es ih =>
    have h' := (untouched_tail (hm e (List.mem_cons_self ..)) h).1
    exact ih (fun x hx => hm x (List.mem_cons_of_mem _ hx)) h'

theorem hashIs_unique {settings : Option Bytes} {h h' : Bytes} (h₁ : hashIs S settings h = true)
    (h₂ : hashIs S settings h' = true) : h = h' := by
  unfold hashIs at h₁ h₂
  cases hd : digest S settings with
  | ok v =>
    simp only [hd, beq_iff_eq] at h₁ h₂
    rw [← h₁, ← h₂]
  | error e => simp [hd] at h₁

/-! ### The invariant -/

/-- What the file holds while a transaction is open. -/
structure OpenHash (S : Site) (settings : Option Bytes) (p : Pending) : Prop where
  distinct : p.previousHash ≠ p.candidateHash
  held : hashIs S settings p.previousHash = true ∨
    (p.transaction.state = .committing ∧ hashIs S settings p.candidateHash = true)

def SettledHash (S : Site) (settings : Option Bytes) (p : Pending) : Prop :=
  p.transaction.state = .committed ↔ hashIs S settings p.candidateHash = true

theorem OpenHash.of_body {settings : Option Bytes} {p q : Pending} (hb : p.body = q.body)
    (h : OpenHash S settings p) : OpenHash S settings q := by
  have ht := transaction_of_body hb
  have hp : p.body.previousHash = q.body.previousHash := by rw [hb]
  have hc : p.body.candidateHash = q.body.candidateHash := by rw [hb]
  change p.previousHash = q.previousHash at hp
  change p.candidateHash = q.candidateHash at hc
  exact ⟨by rw [← hp, ← hc]; exact h.distinct, by rw [← hp, ← hc, ← ht]; exact h.held⟩

structure Agreement (S : Site) (c : Core) : Prop where
  read : ∀ h, hashRead c.trace = some h → hashIs S c.settings h = true
  opened : ∀ d, c.journal = some d → d.isOpen = true → OpenHash S c.settings d.pending
  settled : ∀ d, c.journal = some d → d.isSettled = true → Untouched S c.trace →
    SettledHash S c.settings d.pending
  memory : c.alive = true → c.failed = false → c.state.isSettled = true → Untouched S c.trace →
    SettledHash S c.settings c.state.pending

theorem settled_not_open (h : s.isSettled = true) : s.isOpen = false := by
  revert h
  unfold State.isSettled State.isOpen
  cases s.pending.transaction.state <;> simp [TransactionState.isSettled, TransactionState.isOpen]

theorem change_marks (h : Change S c s marks) :
    (∀ e ∈ marks, e.settles = false) ∧ hashRead (marks ++ c.trace) = hashRead c.trace := by
  cases h <;> exact ⟨by simp [Entry.settles], rfl⟩

/-- Saving a settled state settles the transaction if the journal held it open. -/
theorem settles_iff {e : Entry} (he : e = .journal c.journal s ∨ e = .journalFailed c.journal s true)
    (hss : s.isSettled = true) :
    e.settles = true ↔ ∃ d, c.journal = some d ∧ d.isOpen = true := by
  cases hj : c.journal with
  | some d =>
    rw [hj] at he
    rcases he with rfl | rfl
    · simp [Entry.settles, hss]
    · simp [Entry.settles, hss]
  | none =>
    rw [hj] at he
    rcases he with rfl | rfl
    · simp [Entry.settles]
    · simp [Entry.settles]

/-- Saving a state, given what is known of its transaction. -/
theorem agreement_saved (hA : Agreement S c) (hs : Saved c s marks c')
    (hm : ∀ e ∈ marks, e.settles = false) (hh : hashRead (marks ++ c.trace) = hashRead c.trace)
    (ho : c.failed = false → s.isOpen = true → OpenHash S c.settings s.pending)
    (hset : c.failed = false → s.isSettled = true →
      (∃ d, c.journal = some d ∧ d.isOpen = true) ∨ Untouched S c.trace →
      SettledHash S c.settings s.pending) : Agreement S c' := by
  have hread : ∀ h, hashRead (marks ++ c.trace) = some h → hashIs S c.settings h = true := by
    rw [hh]
    exact hA.read
  have hkept : ∀ d, c.journal = some d → d.isSettled = true → Untouched S (marks ++ c.trace) →
      SettledHash S c.settings d.pending :=
    fun d hd hds hu => hA.settled d hd hds (untouched_marks hm hu)
  -- An entry for `s` is a settlement, or the file has been left alone since an older one.
  have hentry : ∀ e : Entry, e = .journal c.journal s ∨ e = .journalFailed c.journal s true →
      c.failed = false → s.isSettled = true → Untouched S (e :: (marks ++ c.trace)) →
      SettledHash S c.settings s.pending := by
    intro e he hf hss hu
    by_cases hse : e.settles = true
    · exact hset hf hss (.inl ((settles_iff he hss).mp hse))
    · exact hset hf hss (.inr (untouched_marks hm (untouched_tail (by simpa using hse) hu).1))
  cases hs with
  | refused hf =>
    refine ⟨hread, hA.opened, hkept, ?_⟩
    intro _ hf'
    rw [show c.failed = false from hf'] at hf
    simp at hf
  | cut _ =>
    refine ⟨hread, hA.opened, hkept, ?_⟩
    intro ha
    simp at ha
  | ok hf =>
    refine ⟨?_, ?_, ?_, ?_⟩
    · intro h hr
      simp [hashRead] at hr
    · intro d hd hdo
      injection hd with hd
      subst hd
      exact ho hf hdo
    · intro d hd hds hu
      injection hd with hd
      subst hd
      exact hentry _ (.inl rfl) hf hds hu
    · intro _ _ hds hu
      exact hentry _ (.inl rfl) hf hds hu
  | lost left hf =>
    refine ⟨?_, ?_, ?_, ?_⟩
    · intro h hr
      simp [hashRead] at hr
    · intro d hd hdo
      cases left with
      | true =>
        injection hd with hd
        subst hd
        exact ho hf hdo
      | false => exact hA.opened d hd hdo
    · intro d hd hds hu
      cases left with
      | true =>
        injection hd with hd
        subst hd
        exact hentry _ (.inr rfl) hf hds hu
      | false =>
        have hne : (Entry.journalFailed c.journal s false).settles = false := by
          cases c.journal <;> rfl
        exact hkept d hd hds (untouched_tail hne hu).1
    · intro _ hf'
      simp at hf'

/-- A saved state whose transaction is the one in memory. -/
theorem agreement_same (hA : Agreement S c) (hI : Invariant c) (ha : c.alive = true)
    (hp : s.pending = c.state.pending) :
    (c.failed = false → s.isOpen = true → OpenHash S c.settings s.pending) ∧
      (c.failed = false → s.isSettled = true →
        (∃ d, c.journal = some d ∧ d.isOpen = true) ∨ Untouched S c.trace →
        SettledHash S c.settings s.pending) := by
  have hopen : s.isOpen = c.state.isOpen := by rw [State.isOpen, hp]; rfl
  have hsettled : s.isSettled = c.state.isSettled := by rw [State.isSettled, hp]; rfl
  refine ⟨?_, ?_⟩
  · intro hf ho
    rw [hopen] at ho
    obtain ⟨d, hd, hb⟩ := hI.journal_of_open ha hf ho
    have hdo : d.isOpen = true := (open_of_body hb).trans ho
    rw [hp]
    exact (hA.opened d hd hdo).of_body hb
  · intro hf hss hu
    rw [hsettled] at hss
    rw [hp]
    rcases hu with ⟨d, hd, hdo⟩ | hu
    · have hb := hI.open_of_journal ha hf hd hdo
      have hco : c.state.isOpen = true := (open_of_body hb).symm.trans hdo
      rw [settled_not_open hss] at hco
      simp at hco
    · exact hA.memory ha hf hss hu

/-! ### Moves -/

theorem agreement_begin (hA : Agreement S c) {p : NetworkProposal} {id actor requestId : Bytes}
    {t : ℕ} (hne : p.previousSettingsHash ≠ p.candidateSettingsHash)
    (hr : hashRead c.trace = some p.previousSettingsHash) :
    OpenHash S c.settings (Backend.proposed c.state p id actor requestId t) :=
  ⟨hne, .inl (hA.read _ hr)⟩

theorem agreement_settle (hA : Agreement S c) (hI : Invariant c) (ha : c.alive = true)
    (hf : c.failed = false) {commit : Bool} (ho : c.state.isOpen = true) (hd : Decided c commit) :
    SettledHash S c.settings (c.state.settle commit).pending := by
  obtain ⟨d, hj, hb⟩ := hI.journal_of_open ha hf ho
  have hdo : d.isOpen = true := (open_of_body hb).trans ho
  have hheld := (hA.opened d hj hdo).of_body hb
  cases commit with
  | true =>
    refine ⟨fun _ => ?_, fun _ => rfl⟩
    exact hA.read _ hd.2
  | false =>
    have hno : hashIs S c.settings c.state.pending.candidateHash = false := by
      by_contra hc
      have hc' : hashIs S c.settings c.state.pending.candidateHash = true := by simpa using hc
      rcases hd with hp | ⟨h, hr, hne⟩
      · rcases hheld.held with hprev | ⟨hcom, _⟩
        · exact hheld.distinct (hashIs_unique hprev hc')
        · rw [hp] at hcom
          simp at hcom
      · exact hne (hashIs_unique (hA.read h hr) hc')
    refine ⟨fun h => by simp [State.settle] at h, fun h => ?_⟩
    rw [show hashIs S c.settings (c.state.settle false).pending.candidateHash = false from hno] at h
    simp at h

theorem agreement_save (hA : Agreement S c) (hI : Invariant c) (ha : c.alive = true)
    (hc : Change S c s marks) (hs : Saved c s marks c') : Agreement S c' := by
  obtain ⟨hm, hh⟩ := change_marks hc
  have same : s.pending = c.state.pending → Agreement S c' := by
    intro hp
    obtain ⟨ho, hset⟩ := agreement_same hA hI ha hp
    exact agreement_saved hA hs hm hh ho hset
  cases hc with
  | begin p id actor requestId t _ _ _ hne hr _ _ =>
    refine agreement_saved hA hs hm hh (fun _ _ => agreement_begin hA hne hr) ?_
    intro _ hset
    simp [State.isSettled, Backend.proposed, TransactionState.isSettled] at hset
  | prepare time hf _ hp hr _ _ =>
    refine agreement_saved hA hs hm hh ?_ ?_
    · intro _ _
      have ho : c.state.isOpen = true := by rw [State.isOpen, hp]; rfl
      obtain ⟨d, hj, hb⟩ := hI.journal_of_open ha hf ho
      have hdo : d.isOpen = true := (open_of_body hb).trans ho
      exact ⟨((hA.opened d hj hdo).of_body hb).distinct, .inl (hA.read _ hr)⟩
    · intro _ hset
      simp [State.isSettled, State.prepare, TransactionState.isSettled] at hset
  | settle commit ho hd _ _ =>
    refine agreement_saved hA hs hm hh ?_ fun hf _ _ => agreement_settle hA hI ha hf ho hd
    intro _ hso
    rw [settle_not_open] at hso
    simp at hso
  | job job actor requestId _ _ _ _ => exact same rfl
  | powerFailed _ => exact same rfl
  | interrupt _ _ _ _ => exact same rfl
  | configure config _ _ _ _ => exact same rfl
  | keep => exact same rfl
  | adopt _ _ _ => exact same rfl
  | completeReset _ _ _ _ _ => exact same rfl

theorem agreement_dispatch (hA : Agreement S c) (hI : Invariant c) (ha : c.alive = true)
    (hs : Saved { c with jobDeadline := 0 } (c.state.setJob .dispatched) [.dispatching] c') :
    Agreement S c' := by
  obtain ⟨ho, hset⟩ := agreement_same (s := c.state.setJob .dispatched) hA hI ha rfl
  have hA' : Agreement S { c with jobDeadline := 0 } := ⟨hA.read, hA.opened, hA.settled, hA.memory⟩
  exact agreement_saved hA' hs (by simp [Entry.settles]) rfl ho hset

/-- An entry that is neither a write, a removal nor a journal write. -/
theorem agreement_entry {e : Entry} (hA : Agreement S c) (he : e.settles = false)
    (hr : ∀ h, hashRead (e :: c.trace) = some h → hashIs S c.settings h = true) :
    Agreement S { c with trace := e :: c.trace } :=
  ⟨hr, hA.opened, fun d hd hs hu => hA.settled d hd hs (untouched_tail he hu).1,
    fun ha hf hs hu => hA.memory ha hf hs (untouched_tail he hu).1⟩

theorem agreement_loose (hA : Agreement S c) (hl : Loose S c s marks) :
    Agreement S { c with state := s, trace := marks ++ c.trace } := by
  cases hl with
  | wipe _ _ =>
    have he : (Entry.cleared).settles = false := rfl
    refine ⟨hA.read, hA.opened, fun d hd hs hu => hA.settled d hd hs (untouched_tail he hu).1, ?_⟩
    intro _ _ hs
    simp [State.isSettled, State.wipe, TransactionState.isSettled] at hs
  | _ => exact ⟨hA.read, hA.opened, hA.settled, hA.memory⟩

theorem agreement_write (hA : Agreement S c) (v : Bytes)
    (ho : obeys S (.written v c.journal :: c.trace) = true)
    (hu : undisturbed (.written v c.journal :: c.trace) = true) :
    Agreement S { c with settings := some v, trace := .written v c.journal :: c.trace } := by
  have hsettles : (Entry.written v c.journal).settles = false := rfl
  have hnot : ¬ Untouched S (.written v c.journal :: c.trace) := by
    intro h
    have hw := (untouched_tail hsettles h).2.1
    simp [Entry.isWritten] at hw
  refine ⟨?_, ?_, fun _ _ _ h => absurd h hnot, fun _ _ _ h => absurd h hnot⟩
  · intro h hr
    have hr' : hashRead c.trace = some h := hr
    simp [undisturbed, Entry.isWritten, hr'] at hu
  · intro d hd hdo
    have hd' : c.journal = some d := hd
    have hal : allowed S c.trace (.written v c.journal) = true := by
      simp only [obeys, Bool.and_eq_true] at ho
      exact ho.1
    rw [hd'] at hal
    simp only [allowed, hdo, Bool.not_true, Bool.false_or, Bool.and_eq_true, beq_iff_eq] at hal
    exact ⟨(hA.opened d hd' hdo).distinct, .inr ⟨hal.1.1, hal.1.2⟩⟩

theorem agreement_remove (hA : Agreement S c) (hI : Invariant c) (p : Bytes)
    (hi : c.state.resetIntent = true) (hh : hashRead c.trace = none) :
    Agreement S { c with
      settings := if inside p S.profile.activeSettings then none else c.settings
      journal := if inside p S.journalPath then none else c.journal
      trace := .removed p :: c.trace } := by
  have hsettles : (Entry.removed p).settles = false := rfl
  have hkeep : Untouched S (.removed p :: c.trace) →
      Untouched S c.trace ∧
        (if inside p S.profile.activeSettings then none else c.settings) = c.settings := by
    intro h
    obtain ⟨hu, _, he⟩ := untouched_tail hsettles h
    have he' : inside p S.profile.activeSettings = false := he
    exact ⟨hu, by simp [he']⟩
  have hjour : ∀ d, (if inside p S.journalPath then none else c.journal) = some d →
      c.journal = some d := by
    intro d hd
    split at hd
    · simp at hd
    · exact hd
  refine ⟨?_, ?_, ?_, ?_⟩
  · intro h hr
    rw [show hashRead (.removed p :: c.trace) = hashRead c.trace from rfl, hh] at hr
    simp at hr
  · intro d hd hdo
    rw [hI.closed hi d (hjour d hd)] at hdo
    simp at hdo
  · intro d hd hs hu
    obtain ⟨hu', hset⟩ := hkeep hu
    dsimp only
    rw [hset]
    exact hA.settled d (hjour d hd) hs hu'
  · intro ha hf hs hu
    obtain ⟨hu', hset⟩ := hkeep hu
    dsimp only
    rw [hset]
    exact hA.memory ha hf hs hu'

theorem agreement_move (hm : Move S c c') (ho : obeys S c'.trace = true)
    (hu : undisturbed c'.trace = true) (hI : Invariant c) (hA : Agreement S c) :
    Agreement S c' := by
  cases hm with
  | note e he =>
    refine agreement_entry hA ?_ ?_
    · cases e <;> first | rfl | simp [Entry.inert] at he
    · cases e <;> first | exact hA.read | simp [Entry.inert] at he
  | write v => exact agreement_write hA v ho hu
  | hash h hd =>
    refine agreement_entry hA rfl ?_
    intro h' hr
    have hh : h = h' := by simpa [hashRead] using hr
    unfold hashIs
    rw [hd]
    simp [hh]
  | discovered config _ _ => exact agreement_entry hA rfl hA.read
  | remove p hi _ hh _ => exact agreement_remove hA hI p hi hh
  | network n bootstrap ok _ _ =>
    cases ok <;> exact agreement_entry hA rfl hA.read
  | power action _ _ _ _ _ => exact agreement_entry hA rfl hA.read
  | arm deadline _ _ => exact ⟨hA.read, hA.opened, hA.settled, hA.memory⟩
  | dispatch ha _ hs => exact agreement_dispatch hA hI ha hs
  | save ha hc hs => exact agreement_save hA hI ha hc hs
  | loose _ hl => exact agreement_loose hA hl
  | call op => exact agreement_entry hA rfl (by simp [hashRead])
  | returned op _ _ => exact agreement_entry hA rfl (by simp [hashRead])
  | raised op _ => exact agreement_entry hA rfl (by simp [hashRead])
  | cut =>
    refine ⟨by simp [hashRead], hA.opened, ?_, fun ha => by simp at ha⟩
    exact fun d hd hs hu => hA.settled d hd hs (untouched_tail rfl hu).1
  | stop => exact ⟨hA.read, hA.opened, hA.settled, fun ha => by simp at ha⟩
  | construct =>
    refine ⟨by simp [hashRead], hA.opened, ?_, ?_⟩
    · exact fun d hd hs hu => hA.settled d hd hs (untouched_tail rfl hu).1
    · intro _ _ hs hu
      have hu' : Untouched S c.trace := (untouched_tail rfl hu).1
      have hload : ∀ j : Option State, c.journal = j →
          (Backend.loaded S.profile j).isSettled = true →
          SettledHash S c.settings (Backend.loaded S.profile j).pending := by
        intro j hj hs
        rw [State.isSettled, loaded_pending] at hs
        rw [loaded_pending]
        cases j with
        | none => simp [TransactionState.isSettled] at hs
        | some d => exact hA.settled d hj hs hu'
      exact hload c.journal rfl hs

/-! ### The network a settlement installs -/

def State.outcome (s : State) : Network := s.next (s.pending.transaction.state == .committed)

/-- The last transaction was settled on an initialized Backend. -/
def settledInitialized (t : List Entry) : Bool := (settledState t).any (·.initialized)

theorem settledInitialized_tail {e : Entry} {t : List Entry} (he : e.settles = false) :
    settledInitialized (e :: t) = settledInitialized t := by
  unfold settledInitialized settledState
  rw [List.find?_cons_of_neg (by simp [he])]

theorem settledInitialized_marks {t : List Entry} (hm : ∀ e ∈ marks, e.settles = false) :
    settledInitialized (marks ++ t) = settledInitialized t := by
  induction marks with
  | nil => rfl
  | cons e es ih =>
    rw [List.cons_append, settledInitialized_tail (hm e (List.mem_cons_self ..))]
    exact ih fun x hx => hm x (List.mem_cons_of_mem _ hx)

theorem settledInitialized_settles {e : Entry} {t : List Entry} (he : e.settles = true)
    (hs : e.saves = some s) : settledInitialized (e :: t) = s.initialized := by
  unfold settledInitialized settledState
  rw [List.find?_cons_of_pos he, Option.bind_some, hs]
  rfl

/-- What a state whose transaction was settled while initialized looks like. -/
def Installed (s : State) : Prop := s.initialized = true ∧ s.network = s.outcome

structure Installs (c : Core) : Prop where
  journal : ∀ d, c.journal = some d → d.isSettled = true → settledInitialized c.trace = true →
    Installed d
  memory : c.alive = true → c.failed = false → c.state.isSettled = true →
    settledInitialized c.trace = true → Installed c.state

theorem installs_saved (hN : Installs c) (hs : Saved c s marks c')
    (hm : ∀ e ∈ marks, e.settles = false)
    (hset : c.failed = false → s.isSettled = true →
      (∃ d, c.journal = some d ∧ d.isOpen = true) ∧ s.initialized = true ∨
        (¬ ∃ d, c.journal = some d ∧ d.isOpen = true) ∧ settledInitialized c.trace = true →
      Installed s) : Installs c' := by
  have hkept : ∀ d, c.journal = some d → d.isSettled = true →
      settledInitialized (marks ++ c.trace) = true → Installed d := by
    rw [settledInitialized_marks hm]
    exact hN.journal
  have hentry : ∀ e : Entry, e = .journal c.journal s ∨ e = .journalFailed c.journal s true →
      c.failed = false → s.isSettled = true → settledInitialized (e :: (marks ++ c.trace)) = true →
      Installed s := by
    intro e he hf hss hi
    have hsv : e.saves = some s := by rcases he with rfl | rfl <;> rfl
    by_cases hse : e.settles = true
    · rw [settledInitialized_settles hse hsv] at hi
      exact hset hf hss (.inl ⟨(settles_iff he hss).mp hse, hi⟩)
    · rw [settledInitialized_tail (by simpa using hse), settledInitialized_marks hm] at hi
      exact hset hf hss (.inr ⟨fun ho => hse ((settles_iff he hss).mpr ho), hi⟩)
  cases hs with
  | refused hf =>
    refine ⟨hkept, ?_⟩
    intro _ hf'
    rw [show c.failed = false from hf'] at hf
    simp at hf
  | cut _ =>
    refine ⟨hkept, ?_⟩
    intro ha
    simp at ha
  | ok hf =>
    refine ⟨?_, ?_⟩
    · intro d hd hds hi
      injection hd with hd
      subst hd
      exact hentry _ (.inl rfl) hf hds hi
    · intro _ _ hds hi
      exact hentry _ (.inl rfl) hf hds hi
  | lost left hf =>
    refine ⟨?_, ?_⟩
    · intro d hd hds hi
      cases left with
      | true =>
        injection hd with hd
        subst hd
        exact hentry _ (.inr rfl) hf hds hi
      | false =>
        have hne : (Entry.journalFailed c.journal s false).settles = false := by
          cases c.journal <;> rfl
        refine hkept d hd hds ?_
        rw [← settledInitialized_tail hne]
        exact hi
    · intro _ hf'
      simp at hf'

/-- A saved state with the transaction of the memory and, once initialized, its network. -/
theorem installs_same (hN : Installs c) (hI : Invariant c) (ha : c.alive = true)
    (hp : s.pending = c.state.pending)
    (hn : c.state.initialized = true → s.initialized = true ∧ s.network = c.state.network) :
    c.failed = false → s.isSettled = true →
      (∃ d, c.journal = some d ∧ d.isOpen = true) ∧ s.initialized = true ∨
        (¬ ∃ d, c.journal = some d ∧ d.isOpen = true) ∧ settledInitialized c.trace = true →
      Installed s := by
  intro hf hss hu
  have hss' : c.state.isSettled = true := by
    rw [State.isSettled, hp] at hss
    exact hss
  rcases hu with ⟨⟨d, hd, hdo⟩, _⟩ | ⟨_, hi⟩
  · have hb := hI.open_of_journal ha hf hd hdo
    have hco : c.state.isOpen = true := (open_of_body hb).symm.trans hdo
    rw [settled_not_open hss'] at hco
    simp at hco
  · obtain ⟨hin, hnet⟩ := hN.memory ha hf hss' hi
    obtain ⟨hin', hnet'⟩ := hn hin
    refine ⟨hin', ?_⟩
    have ho : s.outcome = c.state.outcome := by
      unfold State.outcome State.next
      rw [hp]
    rw [hnet', hnet, ho]

theorem settle_outcome (s : State) (commit : Bool) :
    (s.settle commit).network = (s.settle commit).outcome := by
  cases commit <;> rfl

theorem installs_save (hN : Installs c) (hI : Invariant c) (ha : c.alive = true)
    (hc : Change S c s marks) (hs : Saved c s marks c') : Installs c' := by
  have hm := (change_marks hc).1
  have same : s.pending = c.state.pending →
      (c.state.initialized = true → s.initialized = true ∧ s.network = c.state.network) →
      Installs c' :=
    fun hp hn => installs_saved hN hs hm (installs_same hN hI ha hp hn)
  cases hc with
  | begin p id actor requestId t _ _ _ _ _ _ _ =>
    refine installs_saved hN hs hm ?_
    intro _ hset
    simp [State.isSettled, Backend.proposed, TransactionState.isSettled] at hset
  | prepare time _ _ _ _ _ _ =>
    refine installs_saved hN hs hm ?_
    intro _ hset
    simp [State.isSettled, State.prepare, TransactionState.isSettled] at hset
  | settle commit ho hd _ _ =>
    refine installs_saved hN hs hm ?_
    intro hf _ hi
    obtain ⟨d, hj, hb⟩ := hI.journal_of_open ha hf ho
    have hdo : d.isOpen = true := (open_of_body hb).trans ho
    rcases hi with ⟨_, hi⟩ | ⟨hno, _⟩
    · exact ⟨hi, settle_outcome c.state commit⟩
    · exact absurd ⟨d, hj, hdo⟩ hno
  | job job actor requestId _ _ _ _ => exact same rfl fun hi => ⟨hi, rfl⟩
  | powerFailed _ => exact same rfl fun hi => ⟨hi, rfl⟩
  | interrupt _ _ _ _ => exact same rfl fun hi => ⟨hi, rfl⟩
  | configure config _ _ _ hn => exact same rfl fun hi => ⟨rfl, hn hi⟩
  | keep => exact same rfl fun hi => ⟨hi, rfl⟩
  | adopt _ _ _ => exact same rfl fun _ => ⟨rfl, rfl⟩
  | completeReset _ _ _ _ _ => exact same rfl fun hi => ⟨hi, rfl⟩

theorem installs_entry {e : Entry} (hN : Installs c) (he : e.settles = false) :
    Installs { c with trace := e :: c.trace } := by
  refine ⟨?_, ?_⟩
  · intro d hd hs hi
    exact hN.journal d hd hs ((settledInitialized_tail he).symm.trans hi)
  · intro ha hf hs hi
    exact hN.memory ha hf hs ((settledInitialized_tail he).symm.trans hi)

theorem installs_loose (hN : Installs c) (ha : c.alive = true) (hl : Loose S c s marks) :
    Installs { c with state := s, trace := marks ++ c.trace } := by
  cases hl with
  | relabel actor requestId => exact ⟨hN.journal, hN.memory⟩
  | configuration config hn hi =>
    refine ⟨hN.journal, ?_⟩
    intro _ hf hs hsi
    have hin := (hN.memory ha hf hs hsi).1
    rw [hn] at hin
    simp at hin
  | wipe hi hb =>
    refine ⟨?_, ?_⟩
    · intro d hd hs hi
      exact hN.journal d hd hs ((settledInitialized_tail (e := .cleared) rfl).symm.trans hi)
    · intro _ _ hs
      simp [State.isSettled, State.wipe, TransactionState.isSettled] at hs
  | hostname b _ _ => exact ⟨hN.journal, hN.memory⟩
  | revert config ho hr =>
    refine ⟨hN.journal, ?_⟩
    intro _ hf hs hsi
    have hc : config = c.state.configuration := by
      have hf' : c.failed = false := hf
      simpa [hf'] using hr
    rw [hc]
    exact hN.memory ha hf hs hsi

theorem installed_migrate {d : State} (P : Profile) (h : Installed d) :
    Installed (Backend.migrate P d) := by
  unfold Backend.migrate
  split
  · exact h
  · exact h

theorem installs_move (hm : Move S c c') (hI : Invariant c) (hN : Installs c) : Installs c' := by
  cases hm with
  | note e he =>
    refine installs_entry hN ?_
    cases e <;> first | rfl | simp [Entry.inert] at he
  | write v =>
    have hN' := installs_entry (e := .written v c.journal) hN rfl
    exact ⟨hN'.journal, hN'.memory⟩
  | remove p hi _ _ _ =>
    have hN' := installs_entry (e := .removed p) hN rfl
    refine ⟨?_, hN'.memory⟩
    intro d hd
    dsimp only at hd
    split at hd
    · simp at hd
    · exact hN'.journal d hd
  | network n bootstrap ok _ _ => cases ok <;> exact installs_entry hN rfl
  | arm deadline _ _ => exact ⟨hN.journal, hN.memory⟩
  | dispatch ha _ hs =>
    have hN' : Installs { c with jobDeadline := 0 } := ⟨hN.journal, hN.memory⟩
    have same := installs_same (s := c.state.setJob .dispatched) hN hI ha rfl fun hi => ⟨hi, rfl⟩
    exact installs_saved hN' hs (by simp [Entry.settles]) same
  | save ha hc hs => exact installs_save hN hI ha hc hs
  | loose ha hl => exact installs_loose hN ha hl
  | cut => exact ⟨(installs_entry (e := .cut) hN rfl).journal, fun ha => by simp at ha⟩
  | stop => exact ⟨hN.journal, fun ha => by simp at ha⟩
  | construct =>
    refine ⟨(installs_entry (e := .constructed) hN rfl).journal, ?_⟩
    intro _ _ hs hi
    have hi' : settledInitialized c.trace = true :=
      (settledInitialized_tail (e := .constructed) rfl).symm.trans hi
    have hload : ∀ j : Option State, c.journal = j → (Backend.loaded S.profile j).isSettled = true →
        Installed (Backend.loaded S.profile j) := by
      intro j hj hs
      rw [State.isSettled, loaded_pending] at hs
      cases j with
      | none => simp [TransactionState.isSettled] at hs
      | some d => exact installed_migrate _ (hN.journal d hj hs hi')
    exact hload c.journal rfl hs
  | _ => exact installs_entry hN rfl

/-! ### Whole runs -/

theorem agreement_fresh (S : Site) (settings : Option Bytes) (tree : List Bytes)
    (status : StatusFile) : Agreement S (fresh settings tree status).toCore := by
  refine ⟨?_, ?_, ?_, ?_⟩
  · intro h hr
    simp [fresh, hashRead] at hr
  · intro d hd
    simp [fresh] at hd
  · intro d hd
    simp [fresh] at hd
  · intro ha
    simp [fresh] at ha

theorem agreement_run (settings : Option Bytes) (tree : List Bytes) (status : StatusFile)
    (es : List Event) (ho : obeys S (run S (fresh settings tree status) es).trace = true)
    (hu : undisturbed (run S (fresh settings tree status) es).trace = true) :
    Agreement S (run S (fresh settings tree status) es).toCore := by
  have back : ∀ a b : Core, Move S a b → obeys S b.trace = true ∧ undisturbed b.trace = true →
      obeys S a.trace = true ∧ undisturbed a.trace = true := by
    intro a b hm h
    obtain ⟨fs, hfs⟩ := hm.grows
    rw [hfs] at h
    exact ⟨obeys_tail h.1, undisturbed_tail h.2⟩
  have step : ∀ a b : Core, Move S a b → obeys S b.trace = true ∧ undisturbed b.trace = true →
      Invariant a ∧ Agreement S a → Invariant b ∧ Agreement S b :=
    fun a b hm h hi => ⟨hi.1.move hm, agreement_move hm h.1 h.2 hi.1 hi.2⟩
  exact (path_keeps_while back step (run_path S _ es) ⟨ho, hu⟩
    ⟨Invariant.fresh settings tree status, agreement_fresh S settings tree status⟩).2

theorem installs_run (S : Site) (settings : Option Bytes) (tree : List Bytes) (status : StatusFile)
    (es : List Event) : Installs (run S (fresh settings tree status) es).toCore := by
  have step : ∀ a b : Core, Move S a b → Invariant a ∧ Installs a → Invariant b ∧ Installs b :=
    fun a b hm hi => ⟨hi.1.move hm, installs_move hm hi.1 hi.2⟩
  have h₀ : Installs (fresh settings tree status).toCore :=
    ⟨fun d hd => by simp [fresh] at hd, fun ha => by simp [fresh] at ha⟩
  exact (path_keeps step (run_path S _ es) ⟨Invariant.fresh settings tree status, h₀⟩).2

/-- The journal says "committed" exactly when the file holds the candidate, in every run in
which the authority keeps its rule and does not write between a reading of the hash and the
journal write that acts on it, as long as the file is neither written nor erased after the
settlement. A settlement on an initialized Backend also installed the network of its outcome. -/
theorem settled_journal_agrees (S : Site) (settings : Option Bytes) (tree : List Bytes)
    (status : StatusFile) (es : List Event) :
    let w := run S (fresh settings tree status) es
    obeys S w.trace = true → undisturbed w.trace = true →
    ∀ d, w.journal = some d → d.isSettled = true →
      rewritten w.trace = false → erased S w.trace = false →
      (d.pending.transaction.state = .committed ↔
        hashIs S w.settings d.pending.candidateHash = true) ∧
      (settledInitialized w.trace = true →
        d.network = if d.pending.transaction.state = .committed then d.pending.transaction.network
          else d.pending.previous) := by
  intro w ho hu d hd hs hr he
  have hA := agreement_run settings tree status es ho hu
  refine ⟨hA.settled d hd hs ⟨hr, he⟩, ?_⟩
  intro hi
  have hn := ((installs_run S settings tree status es).journal d hd hs hi).2
  rw [hn]
  unfold State.outcome State.next
  simp only [beq_iff_eq]

/-- Propose, prepare, let the authority write the candidate, confirm. -/
def Fixture.committed : List Event :=
  started ++ [begin, prepare, .write candidate, finish true]

theorem settled_journal_agrees_committed :
    let w := run Fixture.site Fixture.device Fixture.committed
    ∃ d, w.journal = some d ∧ d.pending.transaction.state = .committed ∧
      d.network = Fixture.static ∧
      hashIs Fixture.site w.settings d.pending.candidateHash = true := by
  intro w
  obtain ⟨d, hj, hc, hn⟩ := Fixture.journal_of_any (w := w) (P := fun d =>
    d.pending.transaction.state = .committed ∧ d.pending.transaction.network = Fixture.static)
    (by decide)
  have hs : d.isSettled = true := by rw [State.isSettled, hc]; rfl
  have h := settled_journal_agrees Fixture.site (some Fixture.previous) [] .missing
    Fixture.committed (by decide) (by decide) d hj hs (by decide)
    (by decide)
  have hnet := h.2 (by decide)
  rw [if_pos hc, hn] at hnet
  exact ⟨d, hj, hc, hnet, h.1.mp hc⟩

/-- A confirmed transaction, then a device reset whose bootstrap deletes the settings and is
refused by the platform before it can clear the record. -/
def Fixture.erasedByReset : List Event :=
  committed ++ [.call (.resetDevice true (ascii "web") []) [{ id := id }], .restart [],
    .call .bootstrap [{}, { fails := true }]]

/-- The prepared commit expires; the authority writes the candidate after the expiry has read
the hash and before it has written the journal. -/
def Fixture.racedByAuthority : List Event :=
  started ++ [begin, prepare,
    .call .tick [{ time := 30000 }, {}, {}, { time := 30000 }, { writes := [candidate] }]]

/-- Without start nothing is initialized, and apply may still choose the network. -/
def Fixture.appliedUninitialized : List Event :=
  [.restart [], .call .bootstrap [], begin, finish false,
    .call (.apply { system := { network := static } }) []]

theorem settled_journal_disagrees :
    (let w := run Fixture.site Fixture.device Fixture.erasedByReset
     obeys Fixture.site w.trace = true ∧ rewritten w.trace = false ∧
       ∃ d, w.journal = some d ∧ d.pending.transaction.state = .committed ∧
         hashIs Fixture.site w.settings d.pending.candidateHash = false) ∧
    (let w := run Fixture.site Fixture.device Fixture.racedByAuthority
     obeys Fixture.site w.trace = true ∧ rewritten w.trace = false ∧
       ∃ d, w.journal = some d ∧ d.pending.transaction.state = .rolledBack ∧
         hashIs Fixture.site w.settings d.pending.candidateHash = true) ∧
    (let w := run Fixture.site Fixture.device Fixture.appliedUninitialized
     obeys Fixture.site w.trace = true ∧ rewritten w.trace = false ∧
       ∃ d, w.journal = some d ∧ d.pending.transaction.state = .rolledBack ∧
         d.network ≠ d.pending.previous) := by
  refine ⟨⟨?_, ?_, ?_⟩, ⟨?_, ?_, ?_⟩, ?_, ?_, ?_⟩
  · decide
  · decide
  · exact Fixture.journal_of_any (by decide)
  · decide
  · decide
  · exact Fixture.journal_of_any (by decide)
  · decide
  · decide
  · exact Fixture.journal_of_any (by decide)

end Monutchee.System
