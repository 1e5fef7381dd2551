import Monutchee.System.Sync

/-!
# A rollback restores the configuration

From the moment a transaction is begun on an initialized Backend until it is settled,
nothing changes the configuration but the constructor, which may fill in the PTP port.
-/

namespace Monutchee.System
open Lib Relation

variable {S : Site} {c c' : Core} {s : State} {marks t : List Entry}

/-- What the constructor may have made of a configuration. -/
def Filled (P : Profile) (c₀ c : Configuration) : Prop :=
  c = c₀ ∨ c₀.time.ptpInterface = [] ∧
    c = { c₀ with time := { c₀.time with ptpInterface := P.defaults.time.ptpInterface } }

/-- An open transaction is the last one begun; if that was on an initialized Backend, the
configuration is still the one it was begun with. -/
structure Begun (S : Site) (t : List Entry) (s : State) : Prop where
  recorded : ∃ c₀ initialized, lastBegun t = some (s.pending.transaction.id, c₀, initialized) ∧
    (initialized = true → s.initialized = true ∧ Filled S.profile c₀ s.configuration ∧
      s.pending.previous = c₀.system.network ∧ ManagedHostname S s.configuration)

/-- Every rollback in the history restored what its transaction was begun with. -/
def Exact (S : Site) : List Entry → Prop
  | [] => True
  | .settled false id c :: t =>
    (∃ c₀ initialized, lastBegun t = some (id, c₀, initialized) ∧
      (initialized = true → Filled S.profile c₀ c ∧ lastApplied t = some c₀.system.network)) ∧
    Exact S t
  | _ :: t => Exact S t

structure Restores (S : Site) (c : Core) : Prop where
  memory : c.state.isOpen = true → Begun S c.trace c.state
  journal : ∀ d, c.journal = some d → d.isOpen = true → Begun S c.trace d
  exact : Exact S c.trace

theorem Begun.congr {t t' : List Entry} {s s' : State} (h : Begun S t s)
    (ht : lastBegun t' = lastBegun t)
    (hid : s'.pending.transaction.id = s.pending.transaction.id)
    (hprev : s'.pending.previous = s.pending.previous)
    (hc : s.initialized = true → s'.initialized = true ∧ s'.configuration = s.configuration) :
    Begun S t' s' := by
  obtain ⟨c₀, i, hb, hi⟩ := h.recorded
  refine ⟨c₀, i, by rw [ht, hid]; exact hb, ?_⟩
  intro hinit
  obtain ⟨hin, hf, hp, hm⟩ := hi hinit
  obtain ⟨hin', hconf⟩ := hc hin
  exact ⟨hin', by rw [hconf]; exact hf, by rw [hprev]; exact hp, by rw [hconf]; exact hm⟩

theorem filled_network {P : Profile} {c₀ c : Configuration} (h : Filled P c₀ c) :
    c.system = c₀.system := by
  rcases h with rfl | ⟨_, rfl⟩
  · rfl
  · rfl

theorem filled_migrate {P : Profile} {c₀ : Configuration} (h : Filled P c₀ s.configuration) :
    Filled P c₀ (Backend.migrate P s).configuration := by
  unfold Backend.migrate
  split
  next he =>
    have he' : s.configuration.time.ptpInterface = [] := by simpa using he
    right
    rcases h with hc | ⟨h₀, hc⟩
    · refine ⟨by rw [← hc]; exact he', ?_⟩
      rw [hc]
    · refine ⟨h₀, ?_⟩
      rw [hc]
  next => exact h

/-- The network after a rollback is the one in the configuration already. -/
theorem settle_configuration {c₀ : Configuration} (h : Filled S.profile c₀ s.configuration)
    (hp : s.pending.previous = c₀.system.network) :
    (s.settle false).configuration = s.configuration := by
  have hn : s.configuration.system.network = s.pending.previous := by
    rw [hp, filled_network h]
  change ({ s.configuration with
    system := { s.configuration.system with network := s.pending.previous } } : Configuration) = _
  rw [← hn]

theorem exact_settle (h : Begun S t s) (ha : lastApplied t = some (s.next false)) (he : Exact S t) :
    Exact S (.settled false s.pending.transaction.id (s.settle false).configuration :: t) := by
  refine ⟨?_, he⟩
  obtain ⟨c₀, i, hb, hi⟩ := h.recorded
  refine ⟨c₀, i, hb, ?_⟩
  intro hinit
  obtain ⟨_, hf, hp, _⟩ := hi hinit
  rw [settle_configuration hf hp]
  exact ⟨hf, by rw [ha, ← hp]; rfl⟩

/-! ### Saving -/

theorem restores_saved (hs : Saved c s marks c') (hm : s.isOpen = true → Begun S (marks ++ c.trace) s)
    (hj : ∀ d, c.journal = some d → d.isOpen = true → Begun S (marks ++ c.trace) d)
    (he : Exact S (marks ++ c.trace)) : Restores S c' := by
  have grown : ∀ d, Begun S (marks ++ c.trace) d → Begun S c'.trace d := by
    intro d h
    have ht : lastBegun c'.trace = lastBegun (marks ++ c.trace) := by cases hs <;> rfl
    exact h.congr ht rfl rfl fun hi => ⟨hi, rfl⟩
  refine ⟨?_, ?_, ?_⟩
  · rw [hs.state]
    exact fun ho => grown s (hm ho)
  · intro d hd hdo
    rcases hs.holds hd with rfl | hd
    · exact grown d (hm hdo)
    · exact grown d (hj d hd hdo)
  · cases hs <;> exact he

theorem restores_save (hR : Restores S c) (hI : Invariant c) (ha : c.alive = true)
    (hc : Change S c s marks) (hs : Saved c s marks c') : Restores S c' := by
  -- The journal's transaction is not affected unless a new one begins.
  have keepj : lastBegun (marks ++ c.trace) = lastBegun c.trace →
      ∀ d, c.journal = some d → d.isOpen = true → Begun S (marks ++ c.trace) d :=
    fun ht d hd hdo => (hR.journal d hd hdo).congr ht rfl rfl fun hi => ⟨hi, rfl⟩
  have closed : s.isOpen = false → lastBegun (marks ++ c.trace) = lastBegun c.trace →
      Exact S (marks ++ c.trace) → Restores S c' := by
    intro ho ht he
    refine restores_saved hs ?_ (keepj ht) he
    intro h
    rw [ho] at h
    simp at h
  cases hc with
  | begin p id actor requestId time hf _ hidle _ _ hm _ =>
    refine restores_saved hs ?_ ?_ hR.exact
    · intro _
      refine ⟨c.state.configuration, c.state.initialized, rfl, ?_⟩
      intro hi
      exact ⟨hi, .inl rfl, rfl, hm⟩
    · intro d hd hdo
      have hb := hI.open_of_journal ha hf hd hdo
      have hco : c.state.isOpen = true := (open_of_body hb).symm.trans hdo
      rw [hidle.1] at hco
      simp at hco
  | prepare time _ _ hp _ _ _ =>
    refine restores_saved hs ?_ (keepj rfl) hR.exact
    intro _
    have ho : c.state.isOpen = true := by rw [State.isOpen, hp]; rfl
    exact (hR.memory ho).congr rfl rfl rfl fun hi => ⟨hi, rfl⟩
  | settle commit ho _ _ hap =>
    refine closed (settle_not_open _ commit) rfl ?_
    cases commit with
    | true => exact hR.exact
    | false => exact exact_settle (hR.memory ho) hap hR.exact
  | job job actor requestId _ _ hidle _ => exact closed hidle.1 rfl hR.exact
  | powerFailed _ =>
    refine restores_saved hs ?_ (keepj rfl) hR.exact
    exact fun ho => (hR.memory ho).congr rfl rfl rfl fun hi => ⟨hi, rfl⟩
  | interrupt _ ho _ _ => exact closed ho rfl hR.exact
  | configure config _ _ hidle _ => exact closed hidle.1 rfl hR.exact
  | keep => exact restores_saved hs hR.memory (keepj rfl) hR.exact
  | adopt hn _ _ =>
    refine restores_saved hs ?_ (keepj rfl) hR.exact
    refine fun ho => (hR.memory ho).congr rfl rfl rfl fun hi => ?_
    rw [hn] at hi
    simp at hi
  | completeReset hi _ _ _ _ =>
    refine closed ?_ rfl hR.exact
    change c.state.isOpen = false
    by_contra ho
    have hn := (hI.exclusive.memory (by simpa using ho)).2
    rw [hi] at hn
    simp at hn

/-! ### Other moves -/

theorem restores_entry {e : Entry} (hR : Restores S c)
    (ht : lastBegun (e :: c.trace) = lastBegun c.trace) (he : Exact S c.trace → Exact S (e :: c.trace)) :
    Restores S { c with trace := e :: c.trace } :=
  ⟨fun ho => (hR.memory ho).congr ht rfl rfl fun hi => ⟨hi, rfl⟩,
    fun d hd hdo => (hR.journal d hd hdo).congr ht rfl rfl fun hi => ⟨hi, rfl⟩, he hR.exact⟩

theorem restores_loose (hR : Restores S c) (hl : Loose S c s marks) :
    Restores S { c with state := s, trace := marks ++ c.trace } := by
  cases hl with
  | relabel actor requestId =>
    exact ⟨fun ho => (hR.memory ho).congr rfl rfl rfl fun hi => ⟨hi, rfl⟩, hR.journal, hR.exact⟩
  | configuration config hn _ =>
    refine ⟨fun ho => (hR.memory ho).congr rfl rfl rfl fun hi => ?_, hR.journal, hR.exact⟩
    rw [hn] at hi
    simp at hi
  | wipe _ _ =>
    refine ⟨fun ho => by simp [State.isOpen, State.wipe, TransactionState.isOpen] at ho, ?_, hR.exact⟩
    exact fun d hd hdo => (hR.journal d hd hdo).congr rfl rfl rfl fun hi => ⟨hi, rfl⟩
  | hostname b _ hb =>
    refine ⟨?_, hR.journal, hR.exact⟩
    intro ho
    obtain ⟨c₀, i, hrec, hi⟩ := (hR.memory ho).recorded
    refine ⟨c₀, i, hrec, ?_⟩
    intro hinit
    have hm := (hi hinit).2.2.2 b hb
    have hc : (c.state.setHostname b.managedHostname).configuration = c.state.configuration := by
      change ({ c.state.configuration with
        system := { c.state.configuration.system with hostname := b.managedHostname } } :
          Configuration) = _
      rw [← hm]
    rw [hc]
    exact hi hinit
  | revert config ho _ =>
    refine ⟨fun h => ?_, hR.journal, hR.exact⟩
    rw [show c.state.isOpen = true from h] at ho
    simp at ho

theorem begun_migrate {d : State} (h : Begun S t d) : Begun S t (Backend.migrate S.profile d) := by
  obtain ⟨c₀, i, hrec, hi⟩ := h.recorded
  have hid : (Backend.migrate S.profile d).pending = d.pending := by
    unfold Backend.migrate
    split <;> rfl
  have hin : (Backend.migrate S.profile d).initialized = d.initialized := by
    unfold Backend.migrate
    split <;> rfl
  have hsys : (Backend.migrate S.profile d).configuration.system = d.configuration.system := by
    unfold Backend.migrate
    split <;> rfl
  refine ⟨c₀, i, by rw [hid]; exact hrec, ?_⟩
  intro hinit
  obtain ⟨h₁, h₂, h₃, h₄⟩ := hi hinit
  refine ⟨by rw [hin]; exact h₁, filled_migrate h₂, by rw [hid]; exact h₃, ?_⟩
  intro b hb
  rw [hsys]
  exact h₄ b hb

theorem restores_move (hm : Move S c c') (hI : Invariant c) (hR : Restores S c) : Restores S c' := by
  cases hm with
  | note e he =>
    refine restores_entry hR ?_ ?_
    · cases e <;> first | rfl | simp [Entry.inert] at he
    · cases e <;> first | exact id | simp [Entry.inert] at he
  | write v =>
    have hR' := restores_entry (e := .written v c.journal) hR rfl id
    exact ⟨hR'.memory, hR'.journal, hR'.exact⟩
  | remove p _ _ _ _ =>
    have hR' := restores_entry (e := .removed p) hR rfl id
    refine ⟨hR'.memory, ?_, hR'.exact⟩
    intro d hd
    dsimp only at hd
    split at hd
    · simp at hd
    · exact hR'.journal d hd
  | network n bootstrap ok _ _ => cases ok <;> exact restores_entry hR rfl id
  | arm deadline _ _ => exact ⟨hR.memory, hR.journal, hR.exact⟩
  | dispatch ha _ hs =>
    refine restores_saved hs ?_ ?_ hR.exact
    · exact fun ho => (hR.memory ho).congr rfl rfl rfl fun hi => ⟨hi, rfl⟩
    · exact fun d hd hdo => (hR.journal d hd hdo).congr rfl rfl rfl fun hi => ⟨hi, rfl⟩
  | save ha hc hs => exact restores_save hR hI ha hc hs
  | loose _ hl => exact restores_loose hR hl
  | cut =>
    have hR' := restores_entry (e := .cut) hR rfl id
    exact ⟨hR'.memory, hR'.journal, hR'.exact⟩
  | stop => exact ⟨hR.memory, hR.journal, hR.exact⟩
  | construct =>
    have hR' := restores_entry (e := .constructed) hR rfl id
    refine ⟨?_, hR'.journal, hR'.exact⟩
    have hload : ∀ j : Option State, c.journal = j → (Backend.loaded S.profile j).isOpen = true →
        Begun S (.constructed :: c.trace) (Backend.loaded S.profile j) := by
      intro j hj ho
      cases j with
      | none =>
        unfold Backend.loaded Backend.migrate State.isOpen at ho
        split at ho <;> simp [TransactionState.isOpen] at ho
      | some d =>
        have hdo : d.isOpen = true := by
          unfold Backend.loaded Backend.migrate State.isOpen at ho
          split at ho <;> exact ho
        exact begun_migrate (hR'.journal d hj hdo)
    exact fun ho => hload c.journal rfl ho
  | _ => exact restores_entry hR rfl id

theorem restores_run (S : Site) (settings : Option Bytes) (tree : List Bytes) (status : StatusFile)
    (es : List Event) : Restores S (run S (fresh settings tree status) es).toCore := by
  have step : ∀ a b : Core, Move S a b → Invariant a ∧ Restores S a → Invariant b ∧ Restores S b :=
    fun a b hm hi => ⟨hi.1.move hm, restores_move hm hi.1 hi.2⟩
  have h₀ : Restores S (fresh settings tree status).toCore := by
    refine ⟨?_, ?_, trivial⟩
    · intro ho
      simp [fresh, State.isOpen, TransactionState.isOpen] at ho
    · intro d hd
      simp [fresh] at hd
  exact (path_keeps step (run_path S _ es) ⟨Invariant.fresh settings tree status, h₀⟩).2

theorem exact_at {pre t : List Entry} {id : Bytes} {config : Configuration}
    (h : Exact S (pre ++ .settled false id config :: t)) :
    ∃ c₀ initialized, lastBegun t = some (id, c₀, initialized) ∧
      (initialized = true → Filled S.profile c₀ config ∧ lastApplied t = some c₀.system.network) := by
  induction pre with
  | nil => exact h.1
  | cons e pre ih =>
    apply ih
    rw [List.cons_append] at h
    unfold Exact at h
    split at h
    · simp at ‹_ :: _ = []›
    · rename_i heq
      injection heq with _ heq
      rw [heq]
      exact h.2
    · rename_i heq
      injection heq with _ heq
      rw [heq]
      exact h

/-- The transaction that is open is the last one begun, and the network has not moved. -/
theorem Begun.previous (h : Begun S t s) :
    ∃ c₀ initialized, lastBegun t = some (s.pending.transaction.id, c₀, initialized) ∧
      (initialized = true → s.network = s.pending.previous) := by
  obtain ⟨c₀, i, hrec, hi⟩ := h.recorded
  refine ⟨c₀, i, hrec, ?_⟩
  intro hinit
  obtain ⟨_, hf, hp, _⟩ := hi hinit
  rw [hp, ← filled_network hf]
  rfl

/-- Whatever the route, the configuration at a rollback is the one of the state in which the
transaction was begun, if that was initialized, and its network is the last one the platform
accepted; and while a transaction is open the network is the one to go back to. -/
theorem rollback_restores (S : Site) (settings : Option Bytes) (tree : List Bytes)
    (status : StatusFile) (es : List Event) :
    let w := run S (fresh settings tree status) es
    (∀ later before id config, w.trace = later ++ .settled false id config :: before →
      ∃ c₀ initialized, lastBegun before = some (id, c₀, initialized) ∧
        (initialized = true →
          Filled S.profile c₀ config ∧ lastApplied before = some c₀.system.network)) ∧
    (w.state.isOpen = true →
      ∃ c₀ initialized, lastBegun w.trace = some (w.state.pending.transaction.id, c₀, initialized) ∧
        (initialized = true → w.state.network = w.state.pending.previous)) ∧
    (∀ d, w.journal = some d → d.isOpen = true →
      ∃ c₀ initialized, lastBegun w.trace = some (d.pending.transaction.id, c₀, initialized) ∧
        (initialized = true → d.network = d.pending.previous)) := by
  intro w
  have hR := restores_run S settings tree status es
  refine ⟨?_, fun ho => (hR.memory ho).previous, fun d hd ho => (hR.journal d hd ho).previous⟩
  intro later before id config ht
  have he := hR.exact
  rw [show (run S (fresh settings tree status) es).trace = _ from ht] at he
  exact exact_at he

end Monutchee.System
