import Monutchee.System.Finality

/-!
# The latch after a failed journal write

persist() sets `storage_failed_` when a write fails; from then on memory is ahead of the
journal. tick and idle test the latch first, so the calls that begin with one of them stop
at once. finishNetwork begins with neither: it answers for a settled transaction, and for an
open one it reaches settleNetwork, which asks the platform before persist() refuses.
-/

namespace Monutchee.System
open Lib Lib.Act Relation
open Backend (Reports)

variable {S : Site} {c c' : Core} {s : State} {marks : List Entry} {w w' : World}
  {id : Bytes} {commit : Bool}

/-- A journal write of the live object has failed. -/
def lostHere (t : List Entry) : Bool :=
  (t.findSome? fun
    | .journalFailed _ _ _ => some true
    | .constructed => some false
    | _ => none).getD false

/-- Calls of platform_.network, preferences, sshBootPolicy and power. -/
def Entry.mutates : Entry → Bool
  | .network _ _ | .networkFailed _ _ | .preferences _ _ | .ssh _ _ | .power _ _ _ => true
  | _ => false

/-! ### The latch holds on -/

theorem latched_saved (hs : Saved c s marks c') (hm : lostHere (marks ++ c.trace) = lostHere c.trace)
    (h : lostHere c.trace = true → c.failed = true) : lostHere c'.trace = true → c'.failed = true := by
  intro hl
  cases hs with
  | refused hf => exact hf
  | cut _ => exact h (hm ▸ hl)
  | ok _ => exact h (hm ▸ hl)
  | lost left _ => rfl

theorem latched_move (hm : Move S c c') (h : lostHere c.trace = true → c.failed = true) :
    lostHere c'.trace = true → c'.failed = true := by
  cases hm with
  | dispatch _ _ hs => exact latched_saved hs rfl h
  | save _ hc hs => exact latched_saved hs (by cases hc <;> rfl) h
  | loose _ hl =>
    intro hlost
    apply h
    cases hl <;> exact hlost
  | construct => exact fun hl => by simp [lostHere] at hl
  | note e he =>
    intro hl
    apply h
    cases e <;> first | exact hl | simp [Entry.inert] at he
  | network n bootstrap ok _ _ =>
    intro hl
    apply h
    cases ok <;> exact hl
  | _ => exact h

/-! ### Histories without a mutating call -/

def Untouching (w w' : World) : Prop :=
  ∃ es, w'.trace = es ++ w.trace ∧ ∀ e ∈ es, e.mutates = false

theorem Untouching.refl (w : World) : Untouching w w := ⟨[], rfl, by simp⟩

theorem Untouching.trans (a b c : World) (h : Untouching a b) (h' : Untouching b c) :
    Untouching a c := by
  obtain ⟨es, ht, hes⟩ := h
  obtain ⟨fs, hu, hfs⟩ := h'
  refine ⟨fs ++ es, by rw [hu, ht, List.append_assoc], ?_⟩
  intro e he
  rcases List.mem_append.mp he with he | he
  · exact hfs e he
  · exact hes e he

theorem Untouching.log (w : World) {e : Entry} (he : e.mutates = false) :
    Untouching w (w.log e) := ⟨[e], rfl, by simpa using he⟩

theorem Untouching.newer (h : Untouching w w') :
    ∀ e ∈ newer w.trace w'.trace, e.mutates = false := by
  obtain ⟨es, ht, hes⟩ := h
  rw [ht, newer_append]
  exact hes

theorem untouching_of_core (h : w'.toCore = w.toCore) : Untouching w w' :=
  ⟨[], congrArg Core.trace h, by simp⟩

theorem untouching_authority (vs : List Bytes) (w : World) : Untouching w (w.authority vs) := by
  obtain ⟨ws, hw, ht⟩ := (authority_frame vs w).trace
  refine ⟨ws, by rw [ht]; simp, ?_⟩
  intro e he
  have hwr := hw e he
  cases e with
  | written v d => rfl
  | reading u => rfl
  | _ => simp [Entry.passing] at hwr

theorem fileHash_untouching (w : World) : Within Untouching (fileHash S) w := by
  have hd : Untouching w w.draw.2 := untouching_of_core (draw_core w)
  unfold Within fileHash
  rw [effect_apply]
  split
  · exact hd
  · apply Untouching.trans _ _ _ hd
    apply Untouching.trans _ _ _ _ (untouching_authority _ _)
    split
    · exact Untouching.refl _
    · split
      · exact Untouching.refl _
      · exact Untouching.log _ rfl

theorem fileHash_crash (h : fileHash S w = (.crash, w')) : ∃ c ∈ w.script, c.crash = true := by
  refine effect_crash ?_ h
  intro c w
  split
  · simp
  · split
    · simp
    · simp

/-- What the hash is of: the settings file as the call finds it. -/
theorem fileHash_digest {h : Bytes} (hr : fileHash S w = (.ret h, w')) :
    digest S w.settings = .ok h := by
  obtain ⟨c, w₁, w₂, hc, hop, _⟩ := effect_ret hr
  have hs : w₁.settings = w.settings := congrArg Core.settings hc
  rw [← hs]
  split at hop
  · simp at hop
  · split at hop
    · simp at hop
    · rename_i h' hd
      injection hop with hop _
      injection hop with hop
      rw [hd, hop]

/-! ### Calls that stop -/

namespace Backend

/-- The program raises, or is cut off by the environment, and asks the platform for nothing. -/
structure Stops {α : Type} (m : Prog α) (w : World) : Prop where
  outcome : (∃ e, (m w).1 = .raise e) ∨ (m w).1 = .crash ∧ ∃ c ∈ w.script, c.crash = true
  untouched : Untouching w (m w).2

theorem Stops.of_raise {α : Type} {m : Prog α} {e : Error} (h : m w = (.raise e, w)) :
    Stops m w := by
  refine ⟨.inl ⟨e, by rw [h]⟩, ?_⟩
  rw [h]
  exact Untouching.refl w

theorem Stops.bind {α β : Type} {m : Prog α} (h : Stops m w) (f : α → Prog β) :
    Stops (m >>= f) w := by
  rcases hm : m w with ⟨o, w₁⟩
  have hu := h.untouched
  have ho := h.outcome
  rw [hm] at hu ho
  cases o with
  | ret a => simp at ho
  | raise e =>
    refine ⟨.inl ⟨e, ?_⟩, ?_⟩
    · rw [bind_of_raise hm]
    · rw [bind_of_raise hm]
      exact hu
  | crash =>
    have hc : ∃ c ∈ w.script, c.crash = true := by simpa using ho
    refine ⟨.inr ⟨?_, hc⟩, ?_⟩
    · rw [bind_of_crash hm]
    · rw [bind_of_crash hm]
      exact hu

theorem idle_latched (hf : w.failed = true) : idle w = (.raise recoveryError, w) := by
  unfold idle
  rw [gets_bind, hf]
  exact bind_of_raise (require_of_false rfl)

theorem tick_latched (hf : w.failed = true) : tick S w = (.raise recoveryError, w) := by
  unfold tick
  rw [gets_bind, hf]
  exact bind_of_raise (require_of_false rfl)

/-- The calls that begin with a test of the latch. -/
theorem call_stops {op : Op} (hf : w.failed = true) (hs : op.serves = true)
    (hu : op.unguarded = false) : Stops (call S op) w := by
  have hidle : Stops idle w := Stops.of_raise (idle_latched hf)
  have htick : Stops (tick S) w := Stops.of_raise (tick_latched hf)
  cases op with
  | bootstrap => simp [Op.serves] at hs
  | start => simp [Op.serves] at hs
  | finishNetwork id commit actor requestId => simp [Op.unguarded] at hu
  | tick => exact htick.bind _
  | apply config => exact (hidle.bind _).bind _
  | beginNetwork p actor requestId => exact ((hidle.bind _).bind _).bind _
  | networkTransaction => exact (htick.bind _).bind _
  | prepareNetworkCommit id => exact (htick.bind _).bind _
  | power action actor requestId => exact (hidle.bind _).bind _
  | resetDevice confirmed actor requestId =>
    refine Stops.bind ?_ _
    unfold resetDevice
    cases confirmed with
    | false => exact Stops.bind (Stops.of_raise (require_of_false rfl)) _
    | true => exact hidle.bind _

/-! ### finishNetwork -/

/-- finishNetwork gets past its two checks of the settings hash. -/
def finishable (S : Site) (s : State) (settings : Option Bytes) (commit : Bool) : Bool :=
  match s.pending.transaction.state with
  | .pending => !commit
  | .committing =>
    match digest S settings with
    | .ok h => (h == s.pending.candidateHash) == commit
    | .error _ => false
  | _ => false

theorem checkFinish_stops (ho : w.state.isOpen = true)
    (hn : finishable S w.state w.settings commit = false) : Stops (checkFinish S commit) w := by
  unfold finishable at hn
  by_cases hc : w.state.pending.transaction.state = .committing
  · rw [hc] at hn
    have heq : checkFinish S commit w = (fileHash S >>= fun h =>
        if commit then
          require (h == w.state.pending.candidateHash)
            ⟨.invalidArgument, ascii "candidate settings have not been persisted"⟩
        else
          require (h != w.state.pending.candidateHash)
            ⟨.busy, ascii "network settings already committed"⟩) w := by
      unfold checkFinish
      rw [gets_bind, hc]
      rfl
    have hu := fileHash_untouching (S := S) w
    unfold Within at hu
    rcases hh : fileHash S w with ⟨o, w₁⟩
    rw [hh] at hu
    cases o with
    | crash =>
      rw [bind_of_crash hh] at heq
      exact ⟨.inr ⟨by rw [heq], fileHash_crash hh⟩, by rw [heq]; exact hu⟩
    | raise e =>
      rw [bind_of_raise hh] at heq
      exact ⟨.inl ⟨e, by rw [heq]⟩, by rw [heq]; exact hu⟩
    | ret h =>
      rw [bind_of_ret hh] at heq
      simp only [fileHash_digest hh] at hn
      cases commit with
      | true =>
        rw [if_pos rfl, require_of_false (by simpa using hn)] at heq
        exact ⟨.inl ⟨_, by rw [heq]⟩, by rw [heq]; exact hu⟩
      | false =>
        rw [if_neg (by simp), require_of_false (by simpa using hn)] at heq
        exact ⟨.inl ⟨_, by rw [heq]⟩, by rw [heq]; exact hu⟩
  · have hp := pending_of_open ho hc
    rw [hp] at hn
    apply Stops.of_raise
    unfold checkFinish
    rw [gets_bind, if_neg (by simpa using hc)]
    exact require_of_false hn

/-- finishNetwork answers or goes on to settle. -/
def finishes (S : Site) (id : Bytes) (commit : Bool) (s : State) (settings : Option Bytes) : Bool :=
  id == s.pending.transaction.id &&
    (s.pending.transaction.state == (if commit then .committed else .rolledBack) ||
      finishable S s settings commit)

theorem checkId_passes (ho : w.state.isOpen = true) (hid : id = w.state.pending.transaction.id) :
    checkId id w = (.ret (), w) := by
  unfold checkId
  rw [gets_bind, ho, hid]
  exact require_of_true (by simp)

theorem checkId_other (hid : id ≠ w.state.pending.transaction.id) :
    checkId id w = (.raise stale, w) := by
  unfold checkId
  rw [gets_bind]
  exact require_of_false (by simp [hid])

theorem Stops.congr {α : Type} {m m' : Prog α} (h : Stops m' w) (he : m w = m' w) : Stops m w := by
  refine ⟨?_, ?_⟩
  · rw [he]
    exact h.outcome
  · rw [he]
    exact h.untouched

theorem finishNetwork_stops (actor requestId : Bytes)
    (hn : finishes S id commit w.state w.settings = false) :
    Stops (finishNetwork S id commit actor requestId) w := by
  have hrep : ¬ Reports id commit w.state := by
    intro hr
    simp [finishes, hr.id, hr.state] at hn
  apply Stops.congr _ (finishNetwork_unsettled hrep)
  by_cases hid : id = w.state.pending.transaction.id
  · by_cases ho : w.state.isOpen = true
    · have hfin : finishable S w.state w.settings commit = false := by
        simp only [finishes, hid, beq_self_eq_true, Bool.true_and, Bool.or_eq_false_iff] at hn
        exact hn.2
      exact ((checkFinish_stops ho hfin).bind _).congr (bind_of_ret (checkId_passes ho hid))
    · exact Stops.bind (Stops.of_raise (checkId_refused (by simpa using ho))) _
  · exact Stops.bind (Stops.of_raise (checkId_other hid)) _

/-! ### finishNetwork with nothing in its way -/

theorem checkFinish_passes (hs : w.script = []) (hfin : finishable S w.state w.settings commit = true) :
    ∃ es, checkFinish S commit w = (.ret (), { w with trace := es ++ w.trace }) := by
  unfold finishable at hfin
  split at hfin
  · rename_i hp
    refine ⟨[], ?_⟩
    unfold checkFinish
    rw [gets_bind, if_neg (by simp [hp])]
    exact require_of_true hfin
  · rename_i hp
    split at hfin
    · rename_i h hd
      have hh : fileHash S w = (.ret h, w.log (.hash h)) := by
        unfold fileHash
        rw [effect_nil _ hs]
        simp only [hd]
        rfl
      refine ⟨[.hash h], ?_⟩
      unfold checkFinish
      rw [gets_bind, if_pos (by simp [hp]), bind_of_ret hh]
      cases commit with
      | true =>
        rw [if_pos rfl]
        exact require_of_true (by simpa using hfin)
      | false =>
        rw [if_neg (by simp)]
        exact require_of_true (by simpa using hfin)
    · simp at hfin
  · simp at hfin

/-- On a latched object the platform is asked and the journal write then refused. -/
theorem settleNetwork_latched (commit bootstrap : Bool) (reason : Reason) (hf : w.failed = true)
    (hs : w.script = []) :
    ∃ w', settleNetwork commit bootstrap reason w = (.raise recoveryError, w') ∧
      ∃ e, w'.trace = e :: .network (w.state.next commit) bootstrap :: w.trace := by
  have hn : platformNetwork (w.state.next commit) bootstrap w =
      (.ret (), w.log (.network (w.state.next commit) bootstrap)) := by
    unfold platformNetwork platformCall
    rw [effect_nil _ hs]
    rfl
  unfold settleNetwork
  rw [gets_bind, bind_of_ret hn, setState, modify_bind]
  exact ⟨_, bind_of_raise (persist_of_failed hf), _, rfl⟩

theorem finishable_open (h : finishable S s settings commit = true) : s.isOpen = true := by
  unfold finishable at h
  rw [State.isOpen]
  split at h
  · rename_i hp
    rw [hp]
    rfl
  · rename_i hp
    rw [hp]
    rfl
  · simp at h

theorem finishNetwork_asks (actor requestId : Bytes) (hf : w.failed = true) (hs : w.script = [])
    (hfin : finishable S w.state w.settings commit = true) (hid : id = w.state.pending.transaction.id) :
    ∃ w', finishNetwork S id commit actor requestId w = (.raise recoveryError, w') ∧
      ∃ es n, w'.trace = es ++ w.trace ∧ .network n false ∈ es := by
  have ho := finishable_open hfin
  have hrep : ¬ Reports id commit w.state := by
    intro hr
    rw [hr.settled.2] at ho
    simp at ho
  obtain ⟨es, hfinish⟩ := checkFinish_passes hs hfin
  rw [finishNetwork_unsettled hrep, bind_of_ret (checkId_passes ho hid), bind_of_ret hfinish]
  obtain ⟨w', hw', e, ht⟩ := settleNetwork_latched commit false .cancel
    (w := { w with trace := es ++ w.trace, state := w.state.relabel actor requestId }) hf hs
  exact ⟨w', hw', e :: .network ((w.state.relabel actor requestId).next commit) false :: es, _, ht,
    List.mem_cons_of_mem _ (List.mem_cons_self ..)⟩

end Backend

/-! ### Whole runs -/

/-- The call raises, or is cut off where the environment says so, and neither way asks the
platform for a change. -/
structure Stopped (S : Site) (op : Op) (script : List Choice) (w : World) : Prop where
  outcome : (∃ e, (perform S op script w).1 = .raise e) ∨
    (perform S op script w).1 = .crash ∧ ∃ c ∈ script, c.crash = true
  untouched : ∀ e ∈ newer w.trace (perform S op script w).2.trace, e.mutates = false

/-- The calls that get past the latch. -/
def slips (S : Site) (w : World) : Op → Bool
  | .finishNetwork id commit _ _ => Backend.finishes S id commit w.state w.settings
  | _ => false

theorem stopped_of_stops {op : Op} {script : List Choice}
    (h : Backend.Stops (Backend.call S op) (entered op script w)) : Stopped S op script w := by
  have hg : Backend.Stops (guarded S op) (entered op script w) := h.bind _
  have hcall : Untouching w (entered op script w) := ⟨[.call op w.failed], rfl, by simp [Entry.mutates]⟩
  have hu := hg.untouched
  have ho := hg.outcome
  rcases hm : guarded S op (entered op script w) with ⟨o, w₁⟩
  rw [hm] at hu ho
  have hu₁ : Untouching w w₁ := Untouching.trans _ _ _ hcall hu
  cases o with
  | ret a => simp at ho
  | raise e =>
    have hp : perform S op script w = (.raise e, w₁.log (.raised op)) := by
      unfold perform
      rw [hm]
    refine ⟨.inl ⟨e, by rw [hp]⟩, Untouching.newer ?_⟩
    rw [hp]
    exact Untouching.trans _ _ _ hu₁ (Untouching.log _ rfl)
  | crash =>
    have hp : perform S op script w = (.crash, { w₁ with alive := false, trace := .cut :: w₁.trace }) := by
      unfold perform
      rw [hm]
    refine ⟨.inr ⟨by rw [hp], by simpa [entered] using ho⟩, Untouching.newer ?_⟩
    rw [hp]
    exact Untouching.trans _ _ _ hu₁ ⟨[.cut], rfl, by simp [Entry.mutates]⟩

/-- With an environment that does nothing, a call that slips returns or asks the platform. -/
theorem not_stopped_of_slips {op : Op} (hf : w.failed = true) (h : slips S w op = true) :
    ¬ Stopped S op [] w := by
  intro hst
  cases op with
  | finishNetwork id commit actor requestId =>
    simp only [slips, Backend.finishes, Bool.and_eq_true, beq_iff_eq, Bool.or_eq_true] at h
    obtain ⟨hid, hset | hfin⟩ := h
    · have hr : Reports id commit w.state := ⟨hid.symm, hset⟩
      have hcall := (answers_of_reports (S := S) hr).repeated actor requestId []
      have hp : (perform S (.finishNetwork id commit actor requestId) [] w).1 = .ret .done := by
        unfold perform guarded
        rw [bind_of_ret hcall]
        rfl
      have ho := hst.outcome
      rw [hp] at ho
      simp at ho
    · let op := Op.finishNetwork id commit actor requestId
      obtain ⟨w', hw', es, n, ht, hn⟩ :=
        Backend.finishNetwork_asks actor requestId (w := entered op [] w) hf rfl hfin hid
      have hp : (perform S op [] w).2 = w'.log (.raised op) := by
        unfold perform guarded Backend.call
        rw [bind_of_raise (bind_of_raise hw')]
      have htrace : (w'.log (.raised op)).trace = (.raised op :: (es ++ [.call op w.failed])) ++ w.trace := by
        simp [World.log, ht, entered]
      have hu := hst.untouched
      rw [show (perform S (.finishNetwork id commit actor requestId) [] w).2 = _ from hp, htrace,
        newer_append] at hu
      have hmem := hu (.network n false) (by simp [hn])
      simp [Entry.mutates] at hmem
  | _ => simp [slips] at h

/-- Once a journal write of the live object has failed, a call that serves a request or the
clock stops, whatever the environment does, exactly if it is not a finishNetwork that answers
for a settled transaction or gets past its checks. -/
theorem latch_stops_calls (S : Site) (settings : Option Bytes) (tree : List Bytes)
    (status : StatusFile) (es : List Event) (op : Op) :
    let w := run S (fresh settings tree status) es
    w.alive = true → lostHere w.trace = true → op.serves = true →
    ((∀ script, Stopped S op script w) ↔ slips S w op = false) := by
  intro w _ hlost hserves
  have hf : w.failed = true := by
    have h := path_keeps (I := fun c => lostHere c.trace = true → c.failed = true)
      (fun _ _ hm => latched_move hm) (run_path S (fresh settings tree status) es)
      (fun hl => by simp [fresh, lostHere] at hl)
    exact h hlost
  constructor
  · intro h
    by_contra hn
    exact not_stopped_of_slips hf (by simpa using hn) (h [])
  · intro hn script
    apply stopped_of_stops
    by_cases hu : op.unguarded = true
    · cases op with
      | finishNetwork id commit actor requestId =>
        have hv := Backend.finishNetwork_stops actor requestId
          (w := entered (.finishNetwork id commit actor requestId) script w) hn
        exact hv.bind _
      | bootstrap => simp [Op.serves] at hserves
      | start => simp [Op.serves] at hserves
      | _ => simp [Op.unguarded] at hu
    · exact Backend.call_stops hf hserves (by simpa using hu)

/-- The write of a reboot request fails. -/
def Fixture.lostRequest : List Event :=
  Fixture.started ++
    [.call (.power .reboot (ascii "web") []) [{ id := Fixture.id }, { fails := true }]]

theorem latch_stops_calls_lostRequest :
    ∀ script, Stopped Fixture.site .tick script
      (run Fixture.site Fixture.device Fixture.lostRequest) := by
  exact (latch_stops_calls Fixture.site (some Fixture.previous) [] .missing Fixture.lostRequest .tick
    (by decide) (by decide) (by decide)).mpr (by decide)

/-- A cancelled proposal whose final journal write fails. -/
def Fixture.lostSettlement : List Event :=
  Fixture.started ++ [begin,
    .call (.finishNetwork Fixture.id false (ascii "web") []) [{}, { fails := true }]]

/-- A preparation whose journal write fails: clock, clock, hash and clock, then the write. -/
def Fixture.lostPreparation : List Event :=
  Fixture.started ++ [begin,
    .call (.prepareNetworkCommit Fixture.id) [{}, {}, {}, {}, { fails := true }]]

theorem latch_slips :
    let cancel := Op.finishNetwork Fixture.id false (ascii "web") []
    (let w := run Fixture.site Fixture.device Fixture.lostSettlement
     w.alive = true ∧ lostHere w.trace = true ∧
       (perform Fixture.site cancel [] w).1 = .ret .done) ∧
    (let w := run Fixture.site Fixture.device Fixture.lostPreparation
     w.alive = true ∧ lostHere w.trace = true ∧
       .network Fixture.dhcp false ∈ newer w.trace (perform Fixture.site cancel [] w).2.trace) := by
  refine ⟨⟨?_, ?_, ?_⟩, ?_, ?_, ?_⟩
  · decide
  · decide
  · decide
  · decide
  · decide
  · decide

end Monutchee.System
