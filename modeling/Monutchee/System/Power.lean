import Monutchee.System.Sync

/-!
# At most one power call for a job

The deadline of a job is volatile and its record durable. A job is marked dispatched in the
journal before the platform is asked, and a new process has no deadline, so a job that was
cut off at any point is not taken up again. Only the reset job is: `start` schedules it
again while the reset intent stands.
-/

namespace Monutchee.System
open Lib Relation

variable {S : Site} {c c' : Core} {s d : State} {marks t t' : List Entry}

/-! ### The history of the last job -/

def Entry.isPower : Entry → Bool
  | .power _ _ _ => true
  | _ => false

def Entry.creates : Entry → Bool
  | .created _ => true
  | _ => false

/-- The last job that was created is a device reset. -/
def resetting (t : List Entry) : Bool := (lastCreated t).any (·.action == .deviceReset)

/-- The live object has created a job. -/
def createdHere (t : List Entry) : Bool :=
  (t.findSome? fun
    | .created _ => some true
    | .constructed => some false
    | _ => none).getD false

/-- The power calls since the last job was created. -/
def powersSince : List Entry → ℕ
  | [] => 0
  | .created _ :: _ => 0
  | .power _ _ _ :: t => powersSince t + 1
  | _ :: t => powersSince t

/-- The call that created the last job raised, or a start of an object that had not created it
found it still accepted. -/
def withdrawn : List Entry → Bool
  | [] => false
  | .created _ :: _ => false
  | .raised _ :: t => withdrawn t || createdInCall t
  | .found _ :: t => withdrawn t || !createdHere t
  | _ :: t => withdrawn t

/-- The job is the one created last, but for its state. -/
def IsLast (t : List Entry) (j : Job) : Prop :=
  ∃ J, lastCreated t = some J ∧ J.id = j.id ∧ J.action = j.action

/-- A job that may still get its power call. -/
structure Ready (t : List Entry) (j : Job) : Prop where
  powers : powersSince t = 0
  kept : withdrawn t = false
  here : createdHere t = true
  job : IsLast t j

/-- What the history says at each power call, and at each entry that withdraws a job. -/
def Accounted : List Entry → Prop
  | [] => True
  | .power _ j durable :: t =>
    (j.state = .dispatched ∧ durable = some j ∧ IsLast t j ∧ (resetting t = false → Ready t j)) ∧ Accounted t
  | .found j :: t => (lastCreated t = some j ∧ powersSince t = 0) ∧ Accounted t
  | .raised _ :: t => (createdInCall t = true → powersSince t = 0) ∧ Accounted t
  | _ :: t => Accounted t

/-! ### Entries that say nothing about jobs -/

def Entry.jobless : Entry → Bool
  | .created _ | .power _ _ _ | .raised _ | .found _ | .dispatching | .call _ _ | .constructed =>
    false
  | _ => true

structure Alike (t t' : List Entry) : Prop where
  last : lastCreated t' = lastCreated t
  powers : powersSince t' = powersSince t
  withdrawn : withdrawn t' = withdrawn t
  here : createdHere t' = createdHere t
  created : createdInCall t' = createdInCall t
  handoff : handoff t' = handoff t
  accounted : Accounted t → Accounted t'

theorem Alike.refl (t : List Entry) : Alike t t := ⟨rfl, rfl, rfl, rfl, rfl, rfl, fun h => h⟩

theorem Alike.cons {e : Entry} (he : e.jobless = true) (t : List Entry) : Alike t (e :: t) := by
  cases e with
  | created job => simp [Entry.jobless] at he
  | power a j d => simp [Entry.jobless] at he
  | raised op => simp [Entry.jobless] at he
  | found job => simp [Entry.jobless] at he
  | dispatching => simp [Entry.jobless] at he
  | call op l => simp [Entry.jobless] at he
  | constructed => simp [Entry.jobless] at he
  | _ => exact ⟨rfl, rfl, rfl, rfl, rfl, rfl, fun h => h⟩

theorem IsLast.alike {j j' : Job} (hl : IsLast t j) (h : Alike t t') (hid : j'.id = j.id)
    (hac : j'.action = j.action) : IsLast t' j' := by
  obtain ⟨J, hJ, hji, hja⟩ := hl
  exact ⟨J, h.last.trans hJ, hji.trans hid.symm, hja.trans hac.symm⟩

theorem Alike.ready {j j' : Job} (h : Alike t t') (hr : Ready t j) (hid : j'.id = j.id)
    (hac : j'.action = j.action) : Ready t' j' :=
  ⟨h.powers.trans hr.powers, h.withdrawn.trans hr.kept, h.here.trans hr.here, hr.job.alike h hid hac⟩

theorem Alike.resetting (h : Alike t t') : resetting t' = System.resetting t := by
  unfold System.resetting
  rw [h.last]

/-- A call creates its job on the live object, before any power call is due. -/
theorem createdInCall_here (t : List Entry) (h : createdInCall t = true) :
    createdHere t = true ∧ handoff t = false := by
  induction t with
  | nil => simp [createdInCall] at h
  | cons e t ih =>
    cases e with
    | created job => exact ⟨rfl, rfl⟩
    | dispatching => simp [createdInCall] at h
    | call op l => simp [createdInCall] at h
    | constructed => simp [createdInCall] at h
    | power a j d => exact ⟨(ih h).1, rfl⟩
    | _ => exact ih h

/-! ### The invariant -/

/-- The last job, if it is not a reset, as far as the live object is concerned. -/
structure Live (c : Core) : Prop where
  created : createdInCall c.trace = true → Ready c.trace c.state.job
  armed : c.jobDeadline ≠ 0 → Ready c.trace c.state.job
  handoff : handoff c.trace = true → Ready c.trace c.state.job ∧ c.jobDeadline = 0

/-- An accepted job is the last one created, and it has had no power call. -/
def Untried (t : List Entry) (s : State) : Prop :=
  s.job.state = .accepted → lastCreated t = some s.job ∧ powersSince t = 0

structure Duty (c : Core) : Prop where
  accounted : Accounted c.trace
  quiet : createdInCall c.trace = true → powersSince c.trace = 0
  intent : resetting c.trace = false → Everywhere (·.resetIntent = false) c
  accepted : Everywhere (Untried c.trace) c
  live : c.alive = true → c.failed = false → resetting c.trace = false → Live c

theorem Everywhere.of_eq {P : State → Prop} (h : Everywhere P c) (hs : c'.state = c.state)
    (hj : c'.journal = c.journal) : Everywhere P c' :=
  ⟨hs ▸ h.memory, hj ▸ h.journal⟩

theorem Untried.alike (h : Untried t s) (ha : Alike t t') : Untried t' s := by
  intro hs
  rw [ha.last, ha.powers]
  exact h hs

/-- What a step does to a job that it leaves alone, but for its state. -/
structure SameJob (s s' : State) : Prop where
  id : s'.job.id = s.job.id
  action : s'.job.action = s.job.action
  accepted : s'.job.state = .accepted → s'.job = s.job
  intent : s'.resetIntent = true → s.resetIntent = true

theorem SameJob.of_eq {s' : State} (hj : s'.job = s.job) (hi : s'.resetIntent = s.resetIntent) :
    SameJob s s' :=
  ⟨congrArg Job.id hj, congrArg Job.action hj, fun _ => hj, fun h => hi ▸ h⟩

theorem SameJob.setJob (s : State) (state : JobState) (h : state ≠ .accepted) :
    SameJob s (s.setJob state) := ⟨rfl, rfl, fun ha => absurd ha h, fun h => h⟩

theorem Untried.same {s' : State} (h : Untried t s) (hs : SameJob s s') : Untried t s' := by
  intro ha
  have hj := hs.accepted ha
  rw [hj] at ha ⊢
  exact h ha

theorem intent_same {s' : State} (h : s.resetIntent = false) (hs : SameJob s s') :
    s'.resetIntent = false := by
  by_contra hn
  have hi := hs.intent (by simpa using hn)
  rw [h] at hi
  simp at hi

/-- A step that adds nothing about jobs to the history and keeps the job. -/
theorem Duty.step (h : Duty c) (ht : Alike c.trace c'.trace) (hs : SameJob c.state c'.state)
    (hj : ∀ d, c'.journal = some d → c.journal = some d) (ha : c'.alive = true → c.alive = true)
    (hf : c'.failed = false → c.failed = false) (hd : c'.jobDeadline = c.jobDeadline) :
    Duty c' := by
  refine ⟨ht.accounted h.accounted, ?_, ?_, ?_, ?_⟩
  · rw [ht.created, ht.powers]
    exact h.quiet
  · intro hr
    rw [ht.resetting] at hr
    have hi := h.intent hr
    exact ⟨intent_same hi.memory hs, fun d hd => hi.journal d (hj d hd)⟩
  · exact ⟨(h.accepted.memory.same hs).alike ht,
      fun d hd => (h.accepted.journal d (hj d hd)).alike ht⟩
  · intro hal hfa hr
    rw [ht.resetting] at hr
    have hl := h.live (ha hal) (hf hfa) hr
    refine ⟨?_, ?_, ?_⟩
    · rw [ht.created]
      exact fun hc => ht.ready (hl.created hc) hs.id hs.action
    · rw [hd]
      exact fun hc => ht.ready (hl.armed hc) hs.id hs.action
    · rw [ht.handoff, hd]
      exact fun hc => ⟨ht.ready (hl.handoff hc).1 hs.id hs.action, (hl.handoff hc).2⟩

/-- A write puts what memory holds into the journal. -/
theorem Duty.saved (hs : Saved c s marks c') (h : Duty { c with state := s, trace := marks ++ c.trace }) :
    Duty c' := by
  have hsome : ∀ (P : State → Prop), P s → ∀ d, some s = some d → P d := by
    intro P hP d hd
    injection hd with hd
    exact hd ▸ hP
  have hjournal : ∀ e : Entry, e.jobless = true → ∀ f, (f = false → c.failed = false) →
      Duty { c with
        state := s, failed := f, journal := some s, trace := e :: (marks ++ c.trace) } := by
    intro e he f hf
    have hk : Duty { c with state := s, failed := f, trace := e :: (marks ++ c.trace) } :=
      h.step (Alike.cons he _) (SameJob.of_eq rfl rfl) (fun _ hd => hd) (fun h => h) hf rfl
    exact ⟨hk.accounted, hk.quiet, fun hr => ⟨(hk.intent hr).memory, hsome _ (hk.intent hr).memory⟩,
      ⟨hk.accepted.memory, hsome _ hk.accepted.memory⟩,
      fun ha hf hr => ⟨(hk.live ha hf hr).created, (hk.live ha hf hr).armed, (hk.live ha hf hr).handoff⟩⟩
  cases hs with
  | refused _ => exact h
  | cut _ =>
    exact h.step (Alike.refl _) (SameJob.of_eq rfl rfl) (fun _ hd => hd) (fun hf => by simp at hf)
      (fun hf => hf) rfl
  | ok _ => exact hjournal _ rfl c.failed (fun hf => hf)
  | lost left hf =>
    cases left with
    | true => exact hjournal _ rfl true (fun hf => by simp at hf)
    | false =>
      exact h.step (Alike.cons rfl _) (SameJob.of_eq rfl rfl) (fun _ hd => hd) (fun h => h)
        (fun hf => by simp at hf) rfl

theorem loose_same (hl : Loose S c s marks) : SameJob c.state s := by
  cases hl <;> exact SameJob.of_eq rfl rfl

theorem loose_alike (hl : Loose S c s marks) : Alike c.trace (marks ++ c.trace) := by
  cases hl with
  | wipe _ _ => exact Alike.cons rfl _
  | _ => exact Alike.refl _

/-! ### The job of a power call -/

/-- A reset is intended for the job created last only, and a power call is due for no other. -/
structure Owned (c : Core) : Prop where
  intent : Everywhere (fun s => s.resetIntent = true → IsLast c.trace s.job) c
  due : c.alive = true → c.failed = false →
    createdInCall c.trace = true ∨ c.jobDeadline ≠ 0 ∨ handoff c.trace = true → IsLast c.trace c.state.job

theorem Owned.step (h : Owned c) (ht : Alike c.trace c'.trace) (hs : SameJob c.state c'.state)
    (hj : ∀ d, c'.journal = some d → c.journal = some d) (ha : c'.alive = true → c.alive = true)
    (hf : c'.failed = false → c.failed = false) (hd : c'.jobDeadline = c.jobDeadline) : Owned c' := by
  refine ⟨⟨?_, ?_⟩, ?_⟩
  · intro hi
    exact (h.intent.memory (hs.intent hi)).alike ht hs.id hs.action
  · intro d hd hi
    exact (h.intent.journal d (hj d hd) hi).alike ht rfl rfl
  · intro hal hfa hdue
    rw [ht.created, hd, ht.handoff] at hdue
    exact (h.due (ha hal) (hf hfa) hdue).alike ht hs.id hs.action

/-- Memory has what the step left in it; the journal has the same, if it was reached. -/
theorem Owned.saved (hs : Saved c s marks c') (h : Owned { c with state := s, trace := marks ++ c.trace }) :
    Owned c' := by
  have hjournal : ∀ e : Entry, e.jobless = true → ∀ f, (f = false → c.failed = false) →
      Owned { c with state := s, failed := f, journal := some s, trace := e :: (marks ++ c.trace) } := by
    intro e he f hf
    have hk : Owned { c with state := s, failed := f, trace := e :: (marks ++ c.trace) } :=
      h.step (Alike.cons he _) (SameJob.of_eq rfl rfl) (fun _ hd => hd) (fun h => h) hf rfl
    refine ⟨⟨hk.intent.memory, ?_⟩, hk.due⟩
    intro d hd
    injection hd with hd
    exact hd ▸ hk.intent.memory
  cases hs with
  | refused _ => exact h
  | cut _ =>
    exact h.step (Alike.refl _) (SameJob.of_eq rfl rfl) (fun _ hd => hd) (fun hf => by simp at hf)
      (fun hf => hf) rfl
  | ok _ => exact hjournal _ rfl c.failed (fun hf => hf)
  | lost left hf =>
    cases left with
    | true => exact hjournal _ rfl true (fun hf => by simp at hf)
    | false =>
      exact h.step (Alike.cons rfl _) (SameJob.of_eq rfl rfl) (fun _ hd => hd) (fun h => h)
        (fun hf => by simp at hf) rfl

theorem owned_created (hI : Invariant c) (ha : c.alive = true) (hf : c.failed = false)
    {job : Job} {actor requestId : Bytes} (hi : Idle c.state) :
    Owned { c with
      state := { c.state with
        job := job, resetIntent := c.state.resetIntent || job.action == .deviceReset
        jobActor := actor, jobRequestId := requestId }
      trace := .created job :: c.trace } := by
  refine ⟨⟨fun _ => ⟨job, rfl, rfl, rfl⟩, ?_⟩, fun _ _ _ => ⟨job, rfl, rfl, rfl⟩⟩
  intro d hd hdi
  have hno := ((hI.sync ha hf).present d hd).intent.trans hi.2.2
  rw [hno] at hdi
  simp at hdi

theorem owned_change (h : Owned c) (hI : Invariant c) (ha : c.alive = true)
    (hc : Change S c s marks) : Owned { c with state := s, trace := marks ++ c.trace } := by
  have hstep : ∀ s marks, Alike c.trace (marks ++ c.trace) → SameJob c.state s →
      Owned { c with state := s, trace := marks ++ c.trace } := fun s marks ht hs =>
    h.step ht hs (fun _ hd => hd) (fun h => h) (fun h => h) rfl
  cases hc with
  | begin p id actor requestId t _ _ _ _ _ _ _ => exact hstep _ _ (Alike.cons rfl _) (SameJob.of_eq rfl rfl)
  | prepare time _ _ _ _ _ _ => exact hstep _ [] (Alike.refl _) (SameJob.of_eq rfl rfl)
  | settle commit _ _ _ _ => exact hstep _ _ (Alike.cons rfl _) (SameJob.of_eq rfl rfl)
  | job job actor requestId hf _ hi _ => exact owned_created hI ha hf hi
  | powerFailed _ => exact hstep _ [] (Alike.refl _) (SameJob.setJob _ _ (by simp))
  | interrupt _ _ _ hja => exact ⟨⟨h.intent.memory, h.intent.journal⟩, h.due⟩
  | configure config _ _ _ _ => exact hstep _ [] (Alike.refl _) (SameJob.of_eq rfl rfl)
  | keep => exact h
  | adopt _ _ _ => exact hstep _ [] (Alike.refl _) (SameJob.of_eq rfl rfl)
  | completeReset _ _ _ _ _ =>
    refine hstep _ [] (Alike.refl _) ⟨rfl, rfl, fun ha => ?_, fun hi => ?_⟩
    · simp [State.completeReset] at ha
    · simp [State.completeReset] at hi

/-- A deadline that is set belongs to the job of the call, or to the reset that is intended. -/
theorem owned_arm (h : Owned c) (deadline : ℕ)
    (hg : (c.failed = false ∧ createdInCall c.trace = true ∧ during Op.requestsJob c.trace = true) ∨
      (c.state.resetIntent = true ∧ during Op.starts c.trace = true)) :
    Owned { c with jobDeadline := deadline } := by
  refine ⟨⟨h.intent.memory, h.intent.journal⟩, ?_⟩
  intro hal hfa _
  rcases hg with ⟨_, hcr, _⟩ | ⟨hi, _⟩
  · exact h.due hal hfa (.inl hcr)
  · exact h.intent.memory hi

theorem owned_construct (h : Owned c) :
    Owned { c with
      alive := true, state := Backend.loaded S.profile c.journal, failed := false
      jobDeadline := 0, trace := .constructed :: c.trace } := by
  refine ⟨⟨?_, h.intent.journal⟩, ?_⟩
  · intro hi
    cases hj : c.journal with
    | none =>
      have hno : (Backend.loaded S.profile none).resetIntent = false :=
        (agrees_migrate S.profile [] { configuration := S.profile.defaults }).intent.symm
      rw [hj, hno] at hi
      simp at hi
    | some d =>
      have hm := agrees_migrate S.profile [] d
      rw [hj] at hi
      have hold := h.intent.journal d hj (hm.intent.trans hi)
      obtain ⟨J, hJ, hid, hac⟩ := hold
      exact ⟨J, hJ, hid.trans (congrArg Job.id hm.job), hac.trans (congrArg Job.action hm.job)⟩
  · rintro - - (hc | hd | hh)
    · simp [createdInCall] at hc
    · exact absurd rfl hd
    · simp [handoff] at hh

/-- An entry about a job that creates none adds nothing to what is due. -/
theorem Owned.entry (h : Owned c) {e : Entry} (hlast : lastCreated (e :: c.trace) = lastCreated c.trace)
    (hcreated : createdInCall (e :: c.trace) = true → createdInCall c.trace = true)
    (hhandoff : handoff (e :: c.trace) = true → handoff c.trace = true) : Owned { c with trace := e :: c.trace } := by
  have hkeep : ∀ j, IsLast c.trace j → IsLast (e :: c.trace) j := by
    rintro j ⟨J, hJ, hsame⟩
    exact ⟨J, hlast.trans hJ, hsame⟩
  refine ⟨⟨fun hi => hkeep _ (h.intent.memory hi), fun d hd hi => hkeep _ (h.intent.journal d hd hi)⟩, ?_⟩
  rintro hal hfa (hc | hd | hh)
  · exact hkeep _ (h.due hal hfa (.inl (hcreated hc)))
  · exact hkeep _ (h.due hal hfa (.inr (.inl hd)))
  · exact hkeep _ (h.due hal hfa (.inr (.inr (hhandoff hh))))

theorem Owned.move (h : Owned c) (hI : Invariant c) (hm : Move S c c') : Owned c' := by
  have hstep : ∀ c' : Core, Alike c.trace c'.trace → c'.state = c.state →
      (∀ d, c'.journal = some d → c.journal = some d) → (c'.alive = true → c.alive = true) →
      c'.failed = c.failed → c'.jobDeadline = c.jobDeadline → Owned c' := by
    intro c' ht hs hj ha hf hd
    exact h.step ht (by rw [hs]; exact SameJob.of_eq rfl rfl) hj ha (fun h => hf ▸ h) hd
  cases hm with
  | dispatch ha hd hs =>
    refine Owned.saved hs ⟨⟨h.intent.memory, h.intent.journal⟩, ?_⟩
    intro hal hfa _
    exact h.due hal hfa (.inr (.inl hd))
  | save ha hc hs => exact Owned.saved hs (owned_change h hI ha hc)
  | loose ha hl =>
    exact h.step (loose_alike hl) (loose_same hl) (fun _ hd => hd) (fun h => h) (fun h => h) rfl
  | construct => exact owned_construct h
  | power action ha hf hj hs hh => exact h.entry rfl (fun hc => hc) fun hc => by simp [handoff] at hc
  | arm deadline _ hg => exact owned_arm h deadline hg
  | call op => exact h.entry rfl (fun hc => by simp [createdInCall] at hc) fun hc => by simp [handoff] at hc
  | raised op hc => exact h.entry rfl (fun hc => hc) fun hc => hc
  | remove p _ _ _ _ =>
    refine hstep _ (Alike.cons rfl _) rfl (fun d hd => ?_) (fun h => h) rfl rfl
    dsimp only at hd
    split at hd
    · simp at hd
    · exact hd
  | note e he =>
    refine hstep _ (Alike.cons ?_ _) rfl (fun _ hd => hd) (fun h => h) rfl rfl
    cases e <;> first | rfl | simp [Entry.inert] at he
  | network n bootstrap ok _ _ =>
    refine hstep _ (Alike.cons ?_ _) rfl (fun _ hd => hd) (fun h => h) rfl rfl
    cases ok <;> rfl
  | cut => exact hstep _ (Alike.cons rfl _) rfl (fun _ hd => hd) (fun h => by simp at h) rfl rfl
  | stop => exact hstep _ (Alike.refl _) rfl (fun _ hd => hd) (fun h => by simp at h) rfl rfl
  | _ => exact hstep _ (Alike.cons rfl _) rfl (fun _ hd => hd) (fun h => h) rfl rfl

/-! ### Changes -/

/-- A new job: nothing older is accepted, and no reset is intended unless by the new job. -/
theorem duty_created (h : Duty c) (hI : Invariant c) (ha : c.alive = true) (hf : c.failed = false)
    {job : Job} {actor requestId : Bytes} (hi : Idle c.state) :
    Duty { c with
      state := { c.state with
        job := job, resetIntent := c.state.resetIntent || job.action == .deviceReset
        jobActor := actor, jobRequestId := requestId }
      trace := .created job :: c.trace } := by
  have hsync := (hI.sync ha hf).present
  have hready : Ready (.created job :: c.trace) job := ⟨rfl, rfl, rfl, job, rfl, rfl, rfl⟩
  refine ⟨h.accounted, fun _ => rfl, ?_, ⟨fun _ => ⟨rfl, rfl⟩, ?_⟩, ?_⟩
  · intro hr
    have hac : (job.action == .deviceReset) = false := hr
    refine ⟨?_, fun d hd => (hsync d hd).intent.trans hi.2.2⟩
    dsimp only
    rw [hi.2.2, hac]
    rfl
  · intro d hd hda
    have hjob := (hsync d hd).job
    rw [hjob] at hda
    exact absurd hda hi.2.1
  · intro _ _ _
    exact ⟨fun _ => hready, fun _ => hready, fun hh => by simp [System.handoff] at hh⟩

/-- start finds a job accepted; if this object did not create it, the object has no deadline. -/
theorem duty_found (h : Duty c) (hja : c.state.job.state = .accepted) :
    Duty { c with
      state := c.state.setJob .interrupted, trace := .found c.state.job :: c.trace } := by
  have hun := h.accepted.memory hja
  have hready : ∀ t j, Ready t j → Ready (.found c.state.job :: t) j := by
    intro t j hr
    refine ⟨hr.powers, ?_, hr.here, hr.job⟩
    simp only [withdrawn, hr.kept, hr.here]
    rfl
  refine ⟨⟨hun, h.accounted⟩, h.quiet, ?_, ⟨?_, ?_⟩, ?_⟩
  · intro hr
    exact ⟨(h.intent hr).memory, (h.intent hr).journal⟩
  · intro hs
    simp [State.setJob] at hs
  · exact fun d hd => h.accepted.journal d hd
  · intro hal hf hr
    have hl := h.live hal hf hr
    have hjob : ∀ j, Ready (.found c.state.job :: c.trace) j →
        j = c.state.job → Ready (.found c.state.job :: c.trace) (c.state.setJob .interrupted).job := by
      rintro j hj rfl
      exact ⟨hj.powers, hj.kept, hj.here, hj.job⟩
    exact ⟨fun hc => hjob _ (hready _ _ (hl.created hc)) rfl,
      fun hc => hjob _ (hready _ _ (hl.armed hc)) rfl,
      fun hc => ⟨hjob _ (hready _ _ (hl.handoff hc).1) rfl, (hl.handoff hc).2⟩⟩

theorem duty_change (h : Duty c) (hI : Invariant c) (ha : c.alive = true)
    (hc : Change S c s marks) : Duty { c with state := s, trace := marks ++ c.trace } := by
  -- Unless a job is created or found, the job keeps its identity and no reset is intended anew.
  have hstep : ∀ s marks, Alike c.trace (marks ++ c.trace) → SameJob c.state s →
      Duty { c with state := s, trace := marks ++ c.trace } := fun s marks ht hs =>
    h.step ht hs (fun _ hd => hd) (fun h => h) (fun h => h) rfl
  cases hc with
  | begin p id actor requestId t _ _ _ _ _ _ _ => exact hstep _ _ (Alike.cons rfl _) (SameJob.of_eq rfl rfl)
  | prepare time _ _ _ _ _ _ => exact hstep _ [] (Alike.refl _) (SameJob.of_eq rfl rfl)
  | settle commit _ _ _ _ => exact hstep _ _ (Alike.cons rfl _) (SameJob.of_eq rfl rfl)
  | job job actor requestId hf _ hi _ => exact duty_created h hI ha hf hi
  | powerFailed _ => exact hstep _ [] (Alike.refl _) (SameJob.setJob _ _ (by simp))
  | interrupt _ _ _ hja => exact duty_found h hja
  | configure config _ _ _ _ => exact hstep _ [] (Alike.refl _) (SameJob.of_eq rfl rfl)
  | keep => exact h
  | adopt _ _ _ => exact hstep _ [] (Alike.refl _) (SameJob.of_eq rfl rfl)
  | completeReset _ _ _ _ _ =>
    refine hstep _ [] (Alike.refl _) ⟨rfl, rfl, fun ha => ?_, fun hi => ?_⟩
    · simp [State.completeReset] at ha
    · simp [State.completeReset] at hi

/-! ### The power call -/

/-- The record is durable before the deadline is forgotten. -/
theorem duty_dispatch (h : Duty c) (hd : c.jobDeadline ≠ 0) :
    Duty { c with
      jobDeadline := 0, state := c.state.setJob .dispatched, trace := .dispatching :: c.trace } := by
  refine ⟨h.accounted, fun hc => by simp [createdInCall] at hc, ?_, ⟨?_, ?_⟩, ?_⟩
  · intro hr
    exact ⟨(h.intent hr).memory, (h.intent hr).journal⟩
  · intro hs
    simp [State.setJob] at hs
  · exact fun d hd => h.accepted.journal d hd
  · intro hal hf hr
    have hready := (h.live hal hf hr).armed hd
    refine ⟨fun hc => by simp [createdInCall] at hc, fun hn => absurd rfl hn, fun _ => ⟨?_, rfl⟩⟩
    exact ⟨hready.powers, hready.kept, hready.here, hready.job⟩

theorem duty_power (h : Duty c) (action : PowerAction) (ha : c.alive = true)
    (hf : c.failed = false) (hj : c.journal = some c.state)
    (hs : c.state.job.state = .dispatched) (hh : handoff c.trace = true) (hlast : IsLast c.trace c.state.job) :
    Duty { c with trace := .power action c.state.job (c.journal.map (·.job)) :: c.trace } := by
  have hno : createdInCall c.trace = false := by
    by_contra hc
    have hb := (createdInCall_here c.trace (by simpa using hc)).2
    rw [hb] at hh
    simp at hh
  have hdisp : ∀ t s, s.job.state = .dispatched → Untried t s := by
    intro t s hs ha
    rw [hs] at ha
    simp at ha
  have hlive : resetting c.trace = false → Ready c.trace c.state.job ∧ c.jobDeadline = 0 :=
    fun hr => (h.live ha hf hr).handoff hh
  refine ⟨⟨⟨hs, by rw [hj]; rfl, hlast, fun hr => (hlive hr).1⟩, h.accounted⟩, ?_,
    fun hr => (h.intent hr).of_eq rfl rfl, ⟨hdisp _ _ hs, ?_⟩, ?_⟩
  · intro hc
    rw [show createdInCall c.trace = true from hc] at hno
    simp at hno
  · intro d hd
    dsimp only at hd
    rw [hj] at hd
    injection hd with hd
    exact hdisp _ _ (hd ▸ hs)
  · intro _ _ hr
    refine ⟨fun hc => ?_, fun hd => absurd (hlive hr).2 hd, fun hp => ?_⟩
    · rw [show createdInCall c.trace = true from hc] at hno
      simp at hno
    · simp [System.handoff] at hp

/-! ### Moves -/

theorem untried_loaded (P : Profile) (t : List Entry) (h : ∀ d, c.journal = some d → Untried t d) :
    Untried t (Backend.loaded P c.journal) := by
  unfold Backend.loaded
  cases hj : c.journal with
  | none =>
    intro ha
    have hjob : (Backend.migrate P (none.getD { configuration := P.defaults })).job = {} :=
      (agrees_migrate P [] _).job.symm
    rw [hjob] at ha
    simp at ha
  | some d =>
    have hm := agrees_migrate P [] d
    exact (h d hj).same (SameJob.of_eq hm.job.symm hm.intent.symm)

theorem intent_loaded (P : Profile) (h : ∀ d, c.journal = some d → d.resetIntent = false) :
    (Backend.loaded P c.journal).resetIntent = false := by
  unfold Backend.loaded
  cases hj : c.journal with
  | none => exact (agrees_migrate P [] { configuration := P.defaults }).intent.symm
  | some d => exact (agrees_migrate P [] d).intent.symm.trans (h d hj)

/-- A new object has no deadline and no job of its own. -/
theorem duty_construct (h : Duty c) :
    Duty { c with
      alive := true, state := Backend.loaded S.profile c.journal, failed := false
      jobDeadline := 0, trace := .constructed :: c.trace } := by
  refine ⟨h.accounted, fun hc => by simp [createdInCall] at hc, ?_, ⟨?_, h.accepted.journal⟩, ?_⟩
  · intro hr
    exact ⟨intent_loaded _ (h.intent hr).journal, (h.intent hr).journal⟩
  · exact untried_loaded _ _ h.accepted.journal
  · intro _ _ _
    exact ⟨fun hc => by simp [createdInCall] at hc, fun hd => absurd rfl hd,
      fun hh => by simp [System.handoff] at hh⟩

theorem duty_call (h : Duty c) (op : Op) :
    Duty { c with trace := .call op c.failed :: c.trace } := by
  refine ⟨h.accounted, fun hc => by simp [createdInCall] at hc,
    fun hr => (h.intent hr).of_eq rfl rfl, h.accepted.of_eq rfl rfl, ?_⟩
  intro hal hf hr
  refine ⟨fun hc => by simp [createdInCall] at hc, fun hd => ?_, fun hh => by simp [System.handoff] at hh⟩
  have hready := (h.live hal hf hr).armed hd
  exact ⟨hready.powers, hready.kept, hready.here, hready.job⟩

/-- A call that created a job raises only when the write of the job failed. -/
theorem duty_raised (h : Duty c) (op : Op) (hc : createdInCall c.trace = true → c.failed = true) :
    Duty { c with trace := .raised op :: c.trace } := by
  refine ⟨⟨h.quiet, h.accounted⟩, h.quiet, fun hr => (h.intent hr).of_eq rfl rfl,
    h.accepted.of_eq rfl rfl, ?_⟩
  intro hal hf hr
  have hl := h.live hal hf hr
  have hno : createdInCall c.trace = false := by
    by_contra hn
    have hfa := hc (by simpa using hn)
    rw [show c.failed = false from hf] at hfa
    simp at hfa
  have hready : Ready c.trace c.state.job → Ready (.raised op :: c.trace) c.state.job := by
    intro hr
    refine ⟨hr.powers, ?_, hr.here, hr.job⟩
    simp only [withdrawn, hr.kept, hno]
    rfl
  exact ⟨fun hc => hready (hl.created hc), fun hd => hready (hl.armed hd),
    fun hh => ⟨hready (hl.handoff hh).1, (hl.handoff hh).2⟩⟩

theorem duty_arm (h : Duty c) (deadline : ℕ)
    (hg : (c.failed = false ∧ createdInCall c.trace = true ∧ during Op.requestsJob c.trace = true) ∨
      (c.state.resetIntent = true ∧ during Op.starts c.trace = true)) :
    Duty { c with jobDeadline := deadline } := by
  refine ⟨h.accounted, h.quiet, fun hr => (h.intent hr).of_eq rfl rfl,
    h.accepted.of_eq rfl rfl, ?_⟩
  intro hal hf hr
  have hl := h.live hal hf hr
  rcases hg with ⟨_, hcr, _⟩ | ⟨hi, _⟩
  · refine ⟨hl.created, fun _ => hl.created hcr, fun hh => ?_⟩
    have hb := (createdInCall_here c.trace hcr).2
    rw [show System.handoff c.trace = true from hh] at hb
    simp at hb
  · have hn := (h.intent hr).memory
    rw [hi] at hn
    simp at hn

theorem Duty.move (h : Duty c) (hI : Invariant c) (ho : Owned c) (hm : Move S c c') : Duty c' := by
  -- An entry that says nothing about jobs.
  have hstep : ∀ c' : Core, Alike c.trace c'.trace → c'.state = c.state →
      (∀ d, c'.journal = some d → c.journal = some d) → (c'.alive = true → c.alive = true) →
      c'.failed = c.failed → c'.jobDeadline = c.jobDeadline → Duty c' := by
    intro c' ht hs hj ha hf hd
    exact h.step ht (by rw [hs]; exact SameJob.of_eq rfl rfl) hj ha (fun h => hf ▸ h) hd
  cases hm with
  | dispatch ha hd hs =>
    have hk := duty_dispatch h hd
    exact Duty.saved hs hk
  | save ha hc hs => exact Duty.saved hs (duty_change h hI ha hc)
  | loose ha hl =>
    exact h.step (loose_alike hl) (loose_same hl) (fun _ hd => hd) (fun h => h) (fun h => h) rfl
  | construct => exact duty_construct h
  | power action ha hf hj hs hh => exact duty_power h action ha hf hj hs hh (ho.due ha hf (.inr (.inr hh)))
  | arm deadline _ hg => exact duty_arm h deadline hg
  | call op => exact duty_call h op
  | raised op hc => exact duty_raised h op hc
  | remove p _ _ _ _ =>
    refine hstep _ (Alike.cons rfl _) rfl (fun d hd => ?_) (fun h => h) rfl rfl
    dsimp only at hd
    split at hd
    · simp at hd
    · exact hd
  | note e he =>
    refine hstep _ (Alike.cons ?_ _) rfl (fun _ hd => hd) (fun h => h) rfl rfl
    cases e <;> first | rfl | simp [Entry.inert] at he
  | network n bootstrap ok _ _ =>
    refine hstep _ (Alike.cons ?_ _) rfl (fun _ hd => hd) (fun h => h) rfl rfl
    cases ok <;> rfl
  | cut => exact hstep _ (Alike.cons rfl _) rfl (fun _ hd => hd) (fun h => by simp at h) rfl rfl
  | stop => exact hstep _ (Alike.refl _) rfl (fun _ hd => hd) (fun h => by simp at h) rfl rfl
  | _ => exact hstep _ (Alike.cons rfl _) rfl (fun _ hd => hd) (fun h => h) rfl rfl

theorem duty_run (S : Site) (settings : Option Bytes) (tree : List Bytes) (status : StatusFile)
    (es : List Event) : Duty (run S (fresh settings tree status) es).toCore := by
  have hfresh : Duty (fresh settings tree status).toCore := by
    refine ⟨trivial, fun hc => by simp [fresh, createdInCall] at hc,
      fun _ => ⟨rfl, by simp [fresh]⟩, ⟨fun ha => by simp [fresh] at ha, by simp [fresh]⟩,
      fun ha => by simp [fresh] at ha⟩
  have howned : Owned (fresh settings tree status).toCore :=
    ⟨⟨fun hi => by simp [fresh] at hi, by simp [fresh]⟩, fun ha => by simp [fresh] at ha⟩
  have h := path_keeps (I := fun c => Invariant c ∧ Owned c ∧ Duty c)
    (fun _ _ hm h => ⟨Invariant.move hm h.1, h.2.1.move h.1 hm, h.2.2.move h.1 h.2.1 hm⟩) (run_path S _ es)
    ⟨Invariant.fresh settings tree status, howned, hfresh⟩
  exact h.2.2

/-! ### Whole runs -/

theorem lastCreated_append {mid older : List Entry} {J : Job}
    (hm : ∀ e ∈ mid, e.creates = false) :
    lastCreated (mid ++ .created J :: older) = some J := by
  induction mid with
  | nil => rfl
  | cons e mid ih =>
    have he := hm e (List.mem_cons_self ..)
    have ih := ih fun x hx => hm x (List.mem_cons_of_mem _ hx)
    cases e with
    | created job => simp [Entry.creates] at he
    | _ => exact ih

theorem Accounted.suffix {es : List Entry} (h : Accounted (es ++ t)) : Accounted t := by
  induction es with
  | nil => exact h
  | cons e es ih =>
    cases e with
    | power a j d => exact ih h.2
    | found j => exact ih h.2
    | raised op => exact ih h.2
    | _ => exact ih h

/-- By induction on the history: a power call is the first since its job was created, and a
withdrawn job has had none. -/
theorem Accounted.once {J : Job} (h : Accounted t) (hl : lastCreated t = some J)
    (hJ : J.action ≠ .deviceReset) :
    powersSince t ≤ 1 ∧ (withdrawn t = true → powersSince t = 0) := by
  induction t with
  | nil => simp [lastCreated] at hl
  | cons e t ih =>
    cases e with
    | created job => exact ⟨Nat.zero_le 1, fun _ => rfl⟩
    | power a j d =>
      have hreset : resetting t = false := by
        rw [resetting, show lastCreated t = some J from hl]
        simpa using hJ
      have hready := h.1.2.2.2 hreset
      have hone : powersSince (.power a j d :: t) = 1 := congrArg (· + 1) hready.powers
      refine ⟨by omega, ?_⟩
      intro hw
      rw [show withdrawn (.power a j d :: t) = withdrawn t from rfl, hready.kept] at hw
      simp at hw
    | found j => exact ⟨(ih h.2 hl).1, fun _ => h.1.2⟩
    | raised op =>
      refine ⟨(ih h.2 hl).1, ?_⟩
      intro hw
      rw [withdrawn, Bool.or_eq_true] at hw
      rcases hw with hw | hw
      · exact (ih h.2 hl).2 hw
      · exact h.1 hw
    | _ => exact ih h hl

theorem powersSince_append {mid older : List Entry} {J : Job}
    (hm : ∀ e ∈ mid, e.creates = false) :
    powersSince (mid ++ .created J :: older) = mid.countP Entry.isPower := by
  induction mid with
  | nil => rfl
  | cons e mid ih =>
    have he := hm e (List.mem_cons_self ..)
    have ih := ih fun x hx => hm x (List.mem_cons_of_mem _ hx)
    cases e with
    | created job => simp [Entry.creates] at he
    | power a j d =>
      rw [List.countP_cons_of_pos rfl, ← ih]
      rfl
    | _ =>
      rw [List.countP_cons_of_neg (by simp [Entry.isPower]), ← ih]
      rfl

/-- The job of a power call is the one created last, marked dispatched in the journal. -/
theorem Accounted.job {J j : Job} {a : PowerAction} {durable : Option Job}
    (h : Accounted (.power a j durable :: t)) (hl : lastCreated t = some J) :
    j = { J with state := .dispatched } ∧ durable = some j := by
  obtain ⟨⟨hs, hd, ⟨J', hJ', hid, hac⟩, _⟩, _⟩ := h
  have hsame : J' = J := Option.some.inj (hJ'.symm.trans hl)
  subst hsame
  refine ⟨?_, hd⟩
  obtain ⟨id, action, state⟩ := j
  simp only at hid hac hs
  rw [hid, hac, hs]

/-- At most one power call for each job that power() created, over the whole run: `mid` is any
stretch of the history from the creation of the job up to another creation. The call finds the
job recorded as dispatched in the journal, and a withdrawn job gets none. In no stretch, that of a
device reset included, does a call carry another job. -/
theorem power_at_most_once (S : Site) (settings : Option Bytes) (tree : List Bytes)
    (status : StatusFile) (es : List Event) (newer mid older : List Entry) (J : Job)
    (hmid : ∀ e ∈ mid, e.creates = false)
    (ht : (run S (fresh settings tree status) es).trace = newer ++ (mid ++ .created J :: older)) :
    (J.action ≠ .deviceReset → mid.countP Entry.isPower ≤ 1 ∧
      (withdrawn (mid ++ .created J :: older) = true → mid.countP Entry.isPower = 0)) ∧
      ∀ a j durable, .power a j durable ∈ mid →
        j = { J with state := .dispatched } ∧ durable = some { J with state := .dispatched } := by
  have hacc : Accounted (mid ++ .created J :: older) := by
    have h := (duty_run S settings tree status es).accounted
    rw [ht] at h
    exact h.suffix
  constructor
  · intro hJ
    have honce := hacc.once (lastCreated_append hmid) hJ
    rw [powersSince_append hmid] at honce
    exact honce
  · intro a j durable hmem
    obtain ⟨after, before, rfl⟩ := List.append_of_mem hmem
    have hbefore : ∀ e ∈ before, e.creates = false := fun e he => hmid e (by simp [he])
    rw [List.append_assoc] at hacc
    obtain ⟨hj, hd⟩ := hacc.suffix.job (lastCreated_append hbefore)
    exact ⟨hj, hd.trans (congrArg some hj)⟩

def Fixture.job : Job := ⟨Fixture.id, .reboot, .accepted⟩

def Fixture.reboot : Event := .call (.power .reboot (ascii "web") []) [{ id := Fixture.id }]

/-- A tick five seconds later, when the job is due. -/
def Fixture.due : Event := .call .tick [{ time := 5000 }, { time := 5000 }, {}, { time := 5000 }]

/-- The reboot is dispatched; the next process starts and ticks as late as one likes. -/
def Fixture.rebooted : List Event :=
  Fixture.started ++ [reboot, due, .crash, .restart [], .call .start [], due, due]

theorem power_at_most_once_rebooted :
    let mid := (run Fixture.site Fixture.device Fixture.rebooted).trace.takeWhile (!·.creates)
    mid.countP Entry.isPower = 1 ∧ ∀ a j durable, .power a j durable ∈ mid →
      j = { Fixture.job with state := .dispatched } ∧
        durable = some { Fixture.job with state := .dispatched } := by
  have h := power_at_most_once Fixture.site (some Fixture.previous) [] .missing Fixture.rebooted []
    ((run Fixture.site Fixture.device Fixture.rebooted).trace.takeWhile (!·.creates))
    ((run Fixture.site Fixture.device Fixture.rebooted).trace.dropWhile (!·.creates)).tail
    Fixture.job (by decide) (by decide)
  exact ⟨by decide, h.2⟩

/-- start is called again on the object that holds the deadline. -/
def Fixture.startedAgain : List Event := Fixture.started ++ [reboot, .call .start [], due]

theorem power_after_found :
    let t := (run Fixture.site Fixture.device Fixture.startedAgain).trace
    t.countP Entry.creates = 1 ∧ .found Fixture.job ∈ t ∧
      .power .reboot { Fixture.job with state := .dispatched }
        (some { Fixture.job with state := .dispatched }) ∈ t := by
  refine ⟨?_, ?_, ?_⟩
  · decide
  · decide
  · decide

end Monutchee.System
