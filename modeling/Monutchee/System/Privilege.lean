import Monutchee.System.Daemon
import Monutchee.System.Finality
import Monutchee.System.Intent
import Monutchee.System.Power
import Monutchee.System.Reload

/-!
# Rights of the callers

Who may change what through the D-Bus interface. The table of rights and the table of
operations are two chains of comparisons on the member name; `dispatch_class` says that they
agree. The rest follows a request through the Backend: without the control right nothing
schedules a power call, without the settings right nothing but a tick touches the transaction,
and a request without either right is worth a tick or nothing.
-/

namespace Monutchee.System
open Lib Lib.Act Relation

variable {D : Daemon} {S : Site} {w w' : World} {r : Request} {op : Op}

/-! ### The two tables agree -/

def Op.isSettings : Op → Bool
  | .apply _ | .beginNetwork _ _ _ | .prepareNetworkCommit _ | .finishNetwork _ _ _ _ => true
  | _ => false

theorem map_ok {α β : Type} {x : Except Error α} {f : α → β} {b : β} (h : x.map f = .ok b) :
    ∃ a, x = .ok a ∧ f a = b := by
  cases x with
  | ok a =>
    injection h with h
    exact ⟨a, rfl, h⟩
  | error e => simp [Except.map] at h

theorem ite_ok {α : Type} {p : Prop} [Decidable p] {x y : Except Error α} {a : α}
    (h : (if p then x else y) = .ok a) : (p ∧ x = .ok a) ∨ y = .ok a := by
  by_cases hp : p
  · rw [if_pos hp] at h
    exact .inl ⟨hp, h⟩
  · rw [if_neg hp] at h
    exact .inr h

theorem query_call {q : Query} {json : Bytes} : D.query q json ≠ .ok (.call op) := by
  unfold Daemon.query
  cases decode D.read.empty json with
  | ok u => simp [bind, Except.bind, pure, Except.pure]
  | error e => simp [bind, Except.bind]

/-- The calls that the chain of comparisons comes to, with the text that was read for each. -/
inductive Daemon.Dispatches (D : Daemon) (uid : UInt32) (json : Bytes) : Bytes → Op → Prop where
  | apply (config : Configuration) : decode D.read.configuration json = .ok config →
      D.Dispatches uid json (ascii "ApplyPreferences") (.apply config)
  | begin (p : NetworkProposal) (value : AuditContext) :
      decode D.read.proposal json = .ok (p, value) →
      D.Dispatches uid json (ascii "BeginNetwork") (.beginNetwork p
        (D.settingsContext uid value).actor (D.settingsContext uid value).requestId)
  | transaction (u : Unit) : decode D.read.empty json = .ok u →
      D.Dispatches uid json (ascii "GetNetworkTransaction") .networkTransaction
  | prepare (id : Bytes) : decode D.read.id json = .ok id →
      D.Dispatches uid json (ascii "PrepareNetworkCommit") (.prepareNetworkCommit id)
  | finish (id : Bytes) (commit : Bool) (value : AuditContext) :
      decode D.read.finish json = .ok (id, commit, value) →
      D.Dispatches uid json (ascii "FinishNetwork") (.finishNetwork id commit
        (D.settingsContext uid value).actor (D.settingsContext uid value).requestId)
  | power (action : PowerAction) (value : AuditContext) :
      decode D.read.power json = .ok (action, value) →
      D.Dispatches uid json (ascii "Power") (.power action
        (D.controlContext uid value).actor (D.controlContext uid value).requestId)
  | reset (confirmed : Bool) (value : AuditContext) :
      decode D.read.reset json = .ok (confirmed, value) →
      D.Dispatches uid json (ascii "ResetDevice") (.resetDevice confirmed
        (D.controlContext uid value).actor (D.controlContext uid value).requestId)

theorem dispatch_dispatches {uid : UInt32} {name json : Bytes}
    (h : D.dispatch uid name json = .ok (.call op)) : D.Dispatches uid json name op := by
  unfold Daemon.dispatch at h
  obtain ⟨-, h⟩ | h := ite_ok h
  · exact absurd h query_call
  obtain ⟨-, h⟩ | h := ite_ok h
  · exact absurd h query_call
  obtain ⟨-, h⟩ | h := ite_ok h
  · exact absurd h query_call
  obtain ⟨-, h⟩ | h := ite_ok h
  · exact absurd h query_call
  obtain ⟨-, h⟩ | h := ite_ok h
  · exact absurd h query_call
  obtain ⟨hn, h⟩ | h := ite_ok h
  · obtain ⟨config, hd, hop⟩ := map_ok h
    injection hop with hop
    subst hop hn
    exact .apply config hd
  obtain ⟨hn, h⟩ | h := ite_ok h
  · obtain ⟨⟨p, value⟩, hd, hop⟩ := map_ok h
    injection hop with hop
    subst hop hn
    exact .begin p value hd
  obtain ⟨hn, h⟩ | h := ite_ok h
  · obtain ⟨u, hd, hop⟩ := map_ok h
    injection hop with hop
    subst hop hn
    exact .transaction u hd
  obtain ⟨hn, h⟩ | h := ite_ok h
  · obtain ⟨id, hd, hop⟩ := map_ok h
    injection hop with hop
    subst hop hn
    exact .prepare id hd
  obtain ⟨hn, h⟩ | h := ite_ok h
  · obtain ⟨⟨id, commit, value⟩, hd, hop⟩ := map_ok h
    injection hop with hop
    subst hop hn
    exact .finish id commit value hd
  obtain ⟨hn, h⟩ | h := ite_ok h
  · obtain ⟨⟨action, value⟩, hd, hop⟩ := map_ok h
    injection hop with hop
    subst hop hn
    exact .power action value hd
  obtain ⟨hn, h⟩ | h := ite_ok h
  · obtain ⟨⟨confirmed, value⟩, hd, hop⟩ := map_ok h
    injection hop with hop
    subst hop hn
    exact .reset confirmed value hd
  obtain ⟨-, h⟩ | h := ite_ok h
  · exact absurd h query_call
  simp at h

/-- A member that is dispatched to a change of the settings is in the table of the settings
operations, one that is dispatched to a job in the table of the control operations. -/
theorem dispatch_class {uid : UInt32} {name json : Bytes}
    (h : D.dispatch uid name json = .ok (.call op)) :
    (op = .networkTransaction ∧ name = ascii "GetNetworkTransaction" ∧
        ∃ u, decode D.read.empty json = .ok u) ∨
      (op.isSettings = true ∧ Access.settingsOperation name = true) ∨
      (op.requestsJob = true ∧ Access.controlOperation name = true ∧ Access.settingsOperation name = false) := by
  cases dispatch_dispatches h with
  | apply config _ => exact .inr (.inl ⟨rfl, by decide⟩)
  | begin p value _ => exact .inr (.inl ⟨rfl, by decide⟩)
  | transaction u hu => exact .inl ⟨rfl, rfl, u, hu⟩
  | prepare id _ => exact .inr (.inl ⟨rfl, by decide⟩)
  | finish id commit value _ => exact .inr (.inl ⟨rfl, by decide⟩)
  | power action value _ => exact .inr (.inr ⟨rfl, by decide, by decide⟩)
  | reset confirmed value _ => exact .inr (.inr ⟨rfl, by decide, by decide⟩)

/-- What admits a request: a known peer, its right, and a text that can be read. -/
theorem authorize_ok {a : Action} (h : D.authorize r = .ok a) :
    ∃ uid json, r.peer = .ok uid ∧ Access.allowed r.member uid D.settingsUid D.controlUid = true ∧
      r.body = some json ∧ D.dispatch uid r.member json = .ok a := by
  unfold Daemon.authorize at h
  cases hp : r.peer with
  | error e =>
    rw [hp] at h
    simp [bind, Except.bind] at h
  | ok uid =>
    rw [hp] at h
    simp only [bind, Except.bind] at h
    split at h
    · rename_i ha
      cases hb : r.body with
      | none =>
        rw [hb] at h
        simp at h
      | some json =>
        rw [hb] at h
        exact ⟨uid, json, rfl, ha, rfl, h⟩
    · simp at h

/-! ### Rights of a peer -/

namespace Daemon

def settingsPeer (D : Daemon) (uid : UInt32) : Bool := uid == 0 || D.settingsUid == some uid

def controlPeer (D : Daemon) (uid : UInt32) : Bool := uid == 0 || D.controlUid == some uid

end Daemon

/-- The request comes from a peer for which p holds. -/
def Request.comesFrom (r : Request) (p : UInt32 → Bool) : Bool :=
  match r.peer with
  | .ok uid => p uid
  | .error _ => false

theorem comesFrom_ok {uid : UInt32} (hp : r.peer = .ok uid) (p : UInt32 → Bool) :
    r.comesFrom p = p uid := by
  rw [Request.comesFrom, hp]

theorem settings_refused (h : D.authorize r = .ok (.call op))
    (hr : r.comesFrom D.settingsPeer = false) : op.isSettings = false := by
  obtain ⟨uid, json, hp, ha, -, hd⟩ := authorize_ok h
  rw [comesFrom_ok hp] at hr
  obtain ⟨rfl, -⟩ | ⟨-, hs⟩ | ⟨hj, -, -⟩ := dispatch_class hd
  · rfl
  · rw [Access.allowed, if_pos hs] at ha
    exact absurd (show D.settingsPeer uid = true from ha) (by simp [hr])
  · cases op with
    | power action actor requestId => rfl
    | resetDevice confirmed actor requestId => rfl
    | _ => simp [Op.requestsJob] at hj

theorem control_refused (h : D.authorize r = .ok (.call op))
    (hr : r.comesFrom D.controlPeer = false) : op.requestsJob = false := by
  obtain ⟨uid, json, hp, ha, -, hd⟩ := authorize_ok h
  rw [comesFrom_ok hp] at hr
  obtain ⟨rfl, -⟩ | ⟨hs, -⟩ | ⟨-, hc, hs⟩ := dispatch_class hd
  · rfl
  · cases op with
    | power action actor requestId => simp [Op.isSettings] at hs
    | resetDevice confirmed actor requestId => simp [Op.isSettings] at hs
    | _ => rfl
  · rw [Access.allowed, if_neg (by simp [hs]), if_pos hc] at ha
    exact absurd (show D.controlPeer uid = true from ha) (by simp [hr])

/-- No member leads to bootstrap, start or a bare tick. -/
theorem authorize_serves (h : D.authorize r = .ok (.call op)) :
    op = .networkTransaction ∨ op.isSettings = true ∨ op.requestsJob = true := by
  obtain ⟨uid, json, -, -, -, hd⟩ := authorize_ok h
  obtain ⟨rfl, -⟩ | ⟨hs, -⟩ | ⟨hj, -, -⟩ := dispatch_class hd
  · exact .inl rfl
  · exact .inr (.inl hs)
  · exact .inr (.inr hj)

/-! ### Without a job -/

/-- The job's deadline is not set, no reset is intended and the history has no power call. -/
structure Unarmed (c : Core) : Prop where
  deadline : c.jobDeadline = 0
  intent : c.state.resetIntent = false
  handoff : handoff c.trace = false
  power : ∀ e ∈ c.trace, e.isPower = false

variable {c c' : Core} {s : State} {marks : List Entry}

/-- Entries that leave the history calm. -/
def Entry.unarmed : Entry → Bool
  | .dispatching | .power _ _ _ => false
  | _ => true

theorem handoff_unarmed {e : Entry} (he : e.unarmed = true) {t : List Entry} (h : handoff t = false) :
    handoff (e :: t) = false := by
  cases e with
  | dispatching => simp [Entry.unarmed] at he
  | power a j d => rfl
  | created job => rfl
  | call op l => rfl
  | constructed => rfl
  | _ => exact h

theorem Unarmed.log (h : Unarmed c) {e : Entry} (he : e.unarmed = true)
    (hd : c'.jobDeadline = c.jobDeadline) (hi : c'.state.resetIntent = c.state.resetIntent)
    (ht : c'.trace = e :: c.trace) : Unarmed c' := by
  refine ⟨hd.trans h.deadline, hi.trans h.intent, ?_, ?_⟩
  · rw [ht]
    exact handoff_unarmed he h.handoff
  · intro x hx
    rw [ht] at hx
    rcases List.mem_cons.mp hx with rfl | hx
    · cases x with
      | power a j d => simp [Entry.unarmed] at he
      | _ => rfl
    · exact h.power x hx

/-- Only a job request and the end of a reset touch the intent. -/
theorem change_intent (h : Change S c s marks) (hj : during Op.requestsJob c.trace = false)
    (hb : during Op.boots c.trace = false) : s.resetIntent = c.state.resetIntent := by
  cases h with
  | job job actor requestId _ hr _ _ =>
    rw [hr] at hj
    simp at hj
  | completeReset _ _ _ _ hd =>
    rw [hd] at hb
    simp at hb
  | _ => rfl

theorem change_unarmed (h : Change S c s marks) :
    marks = [] ∨ ∃ e, marks = [e] ∧ e.unarmed = true := by
  cases h with
  | begin p id actor requestId t => exact .inr ⟨_, rfl, rfl⟩
  | settle commit => exact .inr ⟨_, rfl, rfl⟩
  | job job actor requestId => exact .inr ⟨_, rfl, rfl⟩
  | interrupt => exact .inr ⟨_, rfl, rfl⟩
  | _ => exact .inl rfl

theorem Unarmed.assign (h : Unarmed c) (hi : s.resetIntent = c.state.resetIntent)
    (hm : marks = [] ∨ ∃ e, marks = [e] ∧ e.unarmed = true) :
    Unarmed { c with state := s, trace := marks ++ c.trace } := by
  obtain rfl | ⟨e, rfl, he⟩ := hm
  · exact ⟨h.deadline, hi.trans h.intent, h.handoff, h.power⟩
  · exact h.log he rfl hi rfl

theorem Unarmed.save (h : Unarmed c) (hi : s.resetIntent = c.state.resetIntent)
    (hm : marks = [] ∨ ∃ e, marks = [e] ∧ e.unarmed = true) (hs : Saved c s marks c') : Unarmed c' := by
  have ha : Unarmed { c with state := s, trace := marks ++ c.trace } := h.assign hi hm
  cases hs with
  | refused _ => exact ha
  | cut _ => exact ⟨ha.deadline, ha.intent, ha.handoff, ha.power⟩
  | ok _ => exact ha.log (e := .journal c.journal s) rfl rfl rfl rfl
  | lost left _ => exact ha.log (e := .journalFailed c.journal s left) rfl rfl rfl rfl

theorem loose_marks (h : Loose S c s marks) : marks = [] ∨ ∃ e, marks = [e] ∧ e.unarmed = true := by
  cases h with
  | wipe => exact .inr ⟨_, rfl, rfl⟩
  | _ => exact .inl rfl

/-- A call that neither asks for a job nor boots leaves the process calm. -/
theorem unarmed_move (hm : Move S c c') (h : Unarmed c) (ho : callOf c'.trace = callOf c.trace)
    {latched : Bool} (hc : callOf c.trace = some (op, latched)) (hj : op.requestsJob = false)
    (hb : op.boots = false) : Unarmed c' := by
  have hd : ∀ p : Op → Bool, during p c.trace = p op := by
    intro p
    unfold during
    rw [hc]
  cases hm with
  | note e he =>
    refine h.log ?_ rfl rfl rfl
    cases e with
    | dispatching => simp [Entry.inert] at he
    | power a j d => simp [Entry.inert] at he
    | _ => rfl
  | write v => exact h.log (e := .written v c.journal) rfl rfl rfl rfl
  | hash v _ => exact h.log (e := .hash v) rfl rfl rfl rfl
  | discovered config _ _ => exact h.log (e := .discovered config) rfl rfl rfl rfl
  | remove p _ _ _ _ => exact h.log (e := .removed p) rfl rfl rfl rfl
  | network n bootstrap ok _ _ =>
    refine h.log (e := if ok then .network n bootstrap else .networkFailed n bootstrap) ?_ rfl rfl rfl
    split <;> rfl
  | power action _ _ _ _ hh =>
    rw [h.handoff] at hh
    simp at hh
  | arm deadline _ hg =>
    obtain ⟨-, -, hr⟩ | ⟨hi, -⟩ := hg
    · rw [hd, hj] at hr
      simp at hr
    · rw [h.intent] at hi
      simp at hi
  | dispatch _ hn _ => exact absurd h.deadline hn
  | save _ hch hsv =>
    exact h.save (change_intent hch ((hd _).trans hj) ((hd _).trans hb)) (change_unarmed hch) hsv
  | loose _ hl => exact h.assign (loose_intent hl) (loose_marks hl)
  | call op' => exact h.log (e := .call op' c.failed) rfl rfl rfl rfl
  | returned op' _ _ => exact h.log (e := .returned op') rfl rfl rfl rfl
  | raised op' _ => exact h.log (e := .raised op') rfl rfl rfl rfl
  | cut => exact h.log (e := .cut) rfl rfl rfl rfl
  | stop => exact ⟨h.deadline, h.intent, h.handoff, h.power⟩
  | construct =>
    rw [hc] at ho
    simp [callOf] at ho

theorem unarmed_inner (hp : ReflTransGen (Inner S) c c') {latched : Bool}
    (hc : callOf c.trace = some (op, latched)) (hj : op.requestsJob = false)
    (hb : op.boots = false) (h : Unarmed c) : Unarmed c' := by
  induction hp with
  | refl => exact h
  | tail hp hm ih => exact unarmed_move hm.1 ih hm.2 ((inner_call hp).trans hc) hj hb

/-- Between two inputs. -/
structure Resting (w : World) : Prop where
  deadline : w.jobDeadline = 0
  intent : w.state.resetIntent = false
  power : ∀ e ∈ w.trace, e.isPower = false

theorem Resting.entered (h : Resting w) (op : Op) (script : List Choice) :
    Unarmed (entered op script w).toCore := by
  refine ⟨h.deadline, h.intent, rfl, ?_⟩
  intro e he
  rcases List.mem_cons.mp he with rfl | he
  · rfl
  · exact h.power e he

theorem Unarmed.resting (h : Unarmed w.toCore) : Resting w := ⟨h.deadline, h.intent, h.power⟩

theorem rel_unarmed {script : List Choice} (hr : Rel S (entered op script w) w') (h : Resting w)
    (hj : op.requestsJob = false) (hb : op.boots = false) : Unarmed w'.toCore :=
  unarmed_inner hr.inner (show callOf (entered op script w).trace = some (op, w.failed) from rfl) hj hb (h.entered op script)

theorem perform_rests (op : Op) (script : List Choice) (ha : w.alive = true) (h : Resting w)
    (hj : op.requestsJob = false) (hb : op.boots = false) : Resting (perform S op script w).2 := by
  have hc : Unarmed (guarded S op (entered op script w)).2.toCore :=
    rel_unarmed (guarded_spec (S := S) op script ha).within h hj hb
  unfold perform
  rcases hg : guarded S op (entered op script w) with ⟨o, w'⟩
  rw [hg] at hc
  cases o with
  | ret r =>
    exact Unarmed.resting (w := w'.log (.returned op)) (hc.log (e := .returned op) rfl rfl rfl rfl)
  | raise e =>
    exact Unarmed.resting (w := w'.log (.raised op)) (hc.log (e := .raised op) rfl rfl rfl rfl)
  | crash =>
    exact Unarmed.resting (w := { w' with alive := false, trace := .cut :: w'.trace })
      (hc.log (e := .cut) rfl rfl rfl rfl)

/-! ### What the environment does beside the service -/

theorem authority_rests (vs : List Bytes) (h : Resting w) : Resting (w.authority vs) := by
  have hf := authority_frame vs w
  obtain ⟨ws, hw, ht⟩ := hf.trace
  refine ⟨hf.jobDeadline.trans h.deadline, by rw [hf.state]; exact h.intent, ?_⟩
  intro e he
  rw [ht] at he
  rcases List.mem_append.mp he with he | he
  · have hp := hw e he
    cases e with
    | power a j d => simp [Entry.passing] at hp
    | _ => rfl
  · exact h.power e he

theorem drainAll_rests (cs : List Choice) (h : Resting w) : Resting (drainAll cs w) := by
  induction cs generalizing w with
  | nil => exact h
  | cons c cs ih =>
    apply ih
    split
    · exact ⟨h.deadline, h.intent, h.power⟩
    · exact authority_rests c.writes h

theorem drain_rests (h : Resting w) : Resting w.drain :=
  drainAll_rests w.script ⟨h.deadline, h.intent, h.power⟩

theorem draw_rests (h : Resting w) : Resting w.draw.2 := by
  have hc := draw_core w
  refine ⟨?_, ?_, ?_⟩
  · rw [hc]
    exact h.deadline
  · rw [hc]
    exact h.intent
  · rw [hc]
    exact h.power

/-- A query is an effect that changes nothing. -/
theorem ask_world (q : Query) (w : World) :
    (Daemon.ask q w).2 = { w.draw.2 with alive := false } ∨
      (Daemon.ask q w).2 = w.draw.2.authority w.draw.1.writes := by
  unfold Daemon.ask
  rw [effect_apply]
  split
  · exact .inl rfl
  · right
    dsimp only
    split <;> rfl

theorem answer_rests (q : Query) (h : Resting w) : Resting (Daemon.answer q w).2 := by
  unfold Daemon.answer
  split
  · exact h
  · have hd := draw_rests h
    obtain ha | ha := ask_world q w
    · rw [ha]
      exact ⟨hd.deadline, hd.intent, hd.power⟩
    · rw [ha]
      exact authority_rests _ hd

theorem authorize_boots (h : D.authorize r = .ok (.call op)) : op.boots = false ∧ op.starts = false := by
  obtain rfl | hs | hj := authorize_serves h
  · exact ⟨rfl, rfl⟩
  · cases op with
    | bootstrap => simp [Op.isSettings] at hs
    | start => simp [Op.isSettings] at hs
    | _ => exact ⟨rfl, rfl⟩
  · cases op with
    | bootstrap => simp [Op.requestsJob] at hj
    | start => simp [Op.requestsJob] at hj
    | _ => exact ⟨rfl, rfl⟩

/-- The request, if the input is one, comes from a peer for which p holds. -/
def Input.comesFrom (p : UInt32 → Bool) : Input → Bool
  | .request r _ => r.comesFrom p
  | _ => false

/-- Nothing that happens to the service without a request of a control peer schedules or makes
a power call. -/
theorem act_rests (i : Input) (h : Resting w) (hi : i.comesFrom D.controlPeer = false) :
    Resting (D.act w i) := by
  have hscript : ∀ script : List Choice, Resting { w with script := script } := fun _ =>
    ⟨h.deadline, h.intent, h.power⟩
  have htick : ∀ script, w.alive = true →
      Resting (Backend.tick D.site (entered .networkTransaction script w)).2 := by
    intro script ha
    have hs := Backend.tick_spec (S := D.site) (w := entered .networkTransaction script w) ha
    exact (rel_unarmed hs.within h rfl rfl).resting
  have hacts := D.acts w i
  generalize D.act w i = w' at hacts ⊢
  cases hacts with
  | idle i => exact hscript i.script
  | query r script q _ => exact answer_rests q (hscript script)
  | call r script op ha hop =>
    exact perform_rests op script ha h (control_refused hop hi) (authorize_boots hop).1
  | tick script ha => exact perform_rests .tick script ha h rfl rfl
  | tickStops script ha =>
    have hp := perform_rests (S := D.site) .tick script ha h rfl rfl
    exact ⟨hp.deadline, hp.intent, hp.power⟩
  | swallow script ha => exact htick script ha
  | swallowStops script ha =>
    have hp := htick script ha
    exact ⟨hp.deadline, hp.intent, hp.power⟩
  | status file => exact ⟨h.deadline, h.intent, h.power⟩

theorem serve_rests (s : Served) (i : Input) (h : Resting s.world)
    (hi : i.comesFrom D.controlPeer = false) (hc : ∀ e ∈ s.calls, e.isPower = false) :
    Resting (D.serve s i).world ∧ ∀ e ∈ (D.serve s i).calls, e.isPower = false := by
  have h₀ : Resting { s.world with trace := [] } := ⟨h.deadline, h.intent, by simp⟩
  have hd := drain_rests (act_rests i h₀ hi)
  refine ⟨⟨hd.deadline, hd.intent, by simp [Daemon.serve, Served.take]⟩, ?_⟩
  intro e he
  rcases List.mem_append.mp he with he | he
  · exact hc e he
  · exact hd.power e (List.mem_filter.mp (List.mem_reverse.mp he)).1

theorem serveAll_rests (s : Served) (is : List Input) (h : Resting s.world)
    (hi : ∀ i ∈ is, i.comesFrom D.controlPeer = false) (hc : ∀ e ∈ s.calls, e.isPower = false) :
    Resting (D.serveAll s is).world ∧ ∀ e ∈ (D.serveAll s is).calls, e.isPower = false := by
  induction is generalizing s with
  | nil => exact ⟨h, hc⟩
  | cons i is ih =>
    obtain ⟨hw, hp⟩ := serve_rests s i h (hi i (List.mem_cons_self ..)) hc
    exact ih (D.serve s i) hw (fun j hj => hi j (List.mem_cons_of_mem _ hj)) hp

/-! ### A set deadline belongs to a job -/

structure Scheduled (c : Core) : Prop where
  armed : c.jobDeadline ≠ 0 → c.state.job.state = .accepted ∨ c.state.resetIntent = true
  created : createdInCall c.trace = true → c.state.job.state = .accepted

theorem createdInCall_cons {e : Entry} {t : List Entry}
    (he : ∀ job, e ≠ .created job) (h : createdInCall (e :: t) = true) : createdInCall t = true := by
  cases e with
  | created job => exact absurd rfl (he job)
  | dispatching => simp [createdInCall] at h
  | call op l => simp [createdInCall] at h
  | constructed => simp [createdInCall] at h
  | _ => exact h

theorem Scheduled.log (h : Scheduled c) {e : Entry} (he : ∀ job, e ≠ .created job)
    (hd : c'.jobDeadline = c.jobDeadline) (hs : c'.state = c.state) (ht : c'.trace = e :: c.trace) :
    Scheduled c' := by
  refine ⟨?_, ?_⟩
  · rw [hd, hs]
    exact h.armed
  · rw [hs, ht]
    exact fun hc => h.created (createdInCall_cons he hc)

/-- A change that is journaled, before the write. -/
theorem Scheduled.change (h : Scheduled c) (hc : Change S c s marks)
    (hb : during Op.boots c.trace = false) (hs : during Op.starts c.trace = false) :
    Scheduled { c with state := s, trace := marks ++ c.trace } := by
  cases hc with
  | begin p id actor requestId t => exact ⟨h.armed, fun hc => h.created (createdInCall_cons (by simp) hc)⟩
  | settle commit => exact ⟨h.armed, fun hc => h.created (createdInCall_cons (by simp) hc)⟩
  | job job actor requestId _ _ _ hj => exact ⟨fun _ => .inl hj, fun _ => hj⟩
  | powerFailed hj =>
    refine ⟨?_, ?_⟩
    · intro hd
      obtain ha | hi := h.armed hd
      · rw [hj] at ha
        simp at ha
      · exact .inr hi
    · intro hc
      have ha := h.created hc
      rw [hj] at ha
      simp at ha
  | interrupt hd =>
    rw [hs] at hd
    simp at hd
  | completeReset _ _ _ _ hd =>
    rw [hb] at hd
    simp at hd
  | _ => exact ⟨h.armed, h.created⟩

theorem Scheduled.saved {c₀ : Core} (h : Scheduled { c₀ with state := s, trace := marks ++ c₀.trace })
    (hs : Saved c₀ s marks c') : Scheduled c' := by
  cases hs with
  | refused _ => exact h
  | cut _ => exact ⟨h.armed, h.created⟩
  | ok _ => exact h.log (e := .journal c₀.journal s) (by simp) rfl rfl rfl
  | lost left _ => exact h.log (e := .journalFailed c₀.journal s left) (by simp) rfl rfl rfl

theorem scheduled_move (hm : Move S c c') (h : Scheduled c) (ho : callOf c'.trace = callOf c.trace)
    {latched : Bool} (hc : callOf c.trace = some (op, latched)) (hs : op.starts = false)
    (hb : op.boots = false) : Scheduled c' := by
  have hd : ∀ p : Op → Bool, during p c.trace = p op := by
    intro p
    unfold during
    rw [hc]
  cases hm with
  | note e he =>
    refine h.log ?_ rfl rfl rfl
    rintro job rfl
    simp [Entry.inert] at he
  | write v => exact h.log (e := .written v c.journal) (by simp) rfl rfl rfl
  | hash v _ => exact h.log (e := .hash v) (by simp) rfl rfl rfl
  | discovered config _ _ => exact h.log (e := .discovered config) (by simp) rfl rfl rfl
  | remove p _ _ _ _ => exact h.log (e := .removed p) (by simp) rfl rfl rfl
  | network n bootstrap ok _ _ =>
    refine h.log (e := if ok then .network n bootstrap else .networkFailed n bootstrap) ?_ rfl rfl rfl
    intro job
    split <;> simp
  | power action _ _ _ _ _ =>
    exact h.log (e := .power action c.state.job (c.journal.map (·.job))) (by simp) rfl rfl rfl
  | arm deadline _ hg =>
    refine ⟨?_, h.created⟩
    intro _
    obtain ⟨-, hcr, -⟩ | ⟨hi, -⟩ := hg
    · exact .inl (h.created hcr)
    · exact .inr hi
  | dispatch _ _ hsv =>
    refine Scheduled.saved ⟨?_, ?_⟩ hsv
    · intro hn
      exact absurd rfl hn
    · intro hcr
      simp [createdInCall] at hcr
  | save _ hch hsv => exact (h.change hch ((hd _).trans hb) ((hd _).trans hs)).saved hsv
  | loose _ hl =>
    cases hl with
    | wipe => exact ⟨h.armed, fun hc => h.created (createdInCall_cons (by simp) hc)⟩
    | _ => exact ⟨h.armed, h.created⟩
  | call op' => exact h.log (e := .call op' c.failed) (by simp) rfl rfl rfl
  | returned op' _ _ => exact h.log (e := .returned op') (by simp) rfl rfl rfl
  | raised op' _ => exact h.log (e := .raised op') (by simp) rfl rfl rfl
  | cut => exact h.log (e := .cut) (by simp) rfl rfl rfl
  | stop => exact ⟨h.armed, h.created⟩
  | construct =>
    rw [hc] at ho
    simp [callOf] at ho

theorem scheduled_inner (hp : ReflTransGen (Inner S) c c') {latched : Bool}
    (hc : callOf c.trace = some (op, latched)) (hs : op.starts = false) (hb : op.boots = false)
    (h : Scheduled c) : Scheduled c' := by
  induction hp with
  | refl => exact h
  | tail hp hm ih => exact scheduled_move hm.1 ih hm.2 ((inner_call hp).trans hc) hs hb

/-- In a call that asks for no job a deadline is set for an intended reset only. -/
theorem reset_move (hm : Move S c c') (h : c.jobDeadline ≠ 0 → c.state.resetIntent = true)
    (ho : callOf c'.trace = callOf c.trace) {latched : Bool}
    (hc : callOf c.trace = some (op, latched)) (hj : op.requestsJob = false)
    (hb : op.boots = false) : c'.jobDeadline ≠ 0 → c'.state.resetIntent = true := by
  have hd : ∀ p : Op → Bool, during p c.trace = p op := by
    intro p
    unfold during
    rw [hc]
  cases hm with
  | arm deadline _ hg =>
    intro _
    obtain ⟨-, -, hr⟩ | ⟨hi, -⟩ := hg
    · rw [hd, hj] at hr
      simp at hr
    · exact hi
  | dispatch _ _ hsv =>
    cases hsv with
    | _ => exact fun hn => absurd rfl hn
  | save _ hch hsv =>
    have hi := change_intent hch ((hd _).trans hj) ((hd _).trans hb)
    cases hsv with
    | _ => exact fun hn => hi.trans (h hn)
  | loose _ hl => exact fun hn => (loose_intent hl).trans (h hn)
  | construct =>
    rw [hc] at ho
    simp [callOf] at ho
  | _ => exact h

theorem reset_inner (hp : ReflTransGen (Inner S) c c') {latched : Bool}
    (hc : callOf c.trace = some (op, latched)) (hj : op.requestsJob = false)
    (hb : op.boots = false) (h : c.jobDeadline ≠ 0 → c.state.resetIntent = true) :
    c'.jobDeadline ≠ 0 → c'.state.resetIntent = true := by
  induction hp with
  | refl => exact h
  | tail hp hm ih => exact reset_move hm.1 ih hm.2 ((inner_call hp).trans hc) hj hb

/-- A deadline of the service belongs to an accepted job or to a reset. -/
def Due (w : World) : Prop :=
  w.jobDeadline ≠ 0 → w.state.job.state = .accepted ∨ w.state.resetIntent = true

theorem Due.of_core (h : Due w) (hd : w'.jobDeadline = w.jobDeadline) (hs : w'.state = w.state) :
    Due w' := by
  unfold Due
  rw [hd, hs]
  exact h

theorem rel_due {script : List Choice} (hr : Rel S (entered op script w) w') (h : Due w)
    (hs : op.starts = false) (hb : op.boots = false) : Due w' := by
  have h₀ : Scheduled (entered op script w).toCore := by
    refine ⟨h, ?_⟩
    intro hc
    simp [createdInCall, entered] at hc
  exact (scheduled_inner hr.inner (show callOf (entered op script w).trace = some (op, w.failed) from rfl) hs hb h₀).armed

/-- The marks that perform adds change neither the deadline nor the state. -/
theorem perform_frame (op : Op) (script : List Choice) (w : World) :
    (perform S op script w).2.jobDeadline = (guarded S op (entered op script w)).2.jobDeadline ∧
      (perform S op script w).2.state = (guarded S op (entered op script w)).2.state := by
  unfold perform
  rcases guarded S op (entered op script w) with ⟨o, w'⟩
  cases o with
  | ret r => exact ⟨rfl, rfl⟩
  | raise e => exact ⟨rfl, rfl⟩
  | crash => exact ⟨rfl, rfl⟩

theorem perform_due (op : Op) (script : List Choice) (ha : w.alive = true) (h : Due w)
    (hs : op.starts = false) (hb : op.boots = false) : Due (perform S op script w).2 := by
  have hg : Due (guarded S op (entered op script w)).2 :=
    rel_due (guarded_spec (S := S) op script ha).within h hs hb
  obtain ⟨hd, hst⟩ := perform_frame (S := S) op script w
  exact hg.of_core hd hst

theorem authority_due (vs : List Bytes) (h : Due w) : Due (w.authority vs) := by
  have hf := authority_frame vs w
  exact h.of_core hf.jobDeadline hf.state

theorem drainAll_due (cs : List Choice) (h : Due w) : Due (drainAll cs w) := by
  induction cs generalizing w with
  | nil => exact h
  | cons c cs ih =>
    apply ih
    split
    · exact h
    · exact authority_due c.writes h

theorem answer_due (q : Query) (h : Due w) : Due (Daemon.answer q w).2 := by
  unfold Daemon.answer
  split
  · exact h
  · have hc := draw_core w
    have hd : Due w.draw.2 := h.of_core (by rw [hc]) (by rw [hc])
    obtain ha | ha := ask_world q w
    · rw [ha]
      exact hd
    · rw [ha]
      exact authority_due _ hd

theorem act_due (i : Input) (h : Due w) : Due (D.act w i) := by
  have htick : ∀ script, w.alive = true →
      Due (Backend.tick D.site (entered .networkTransaction script w)).2 := by
    intro script ha
    have hs := Backend.tick_spec (S := D.site) (w := entered .networkTransaction script w) ha
    exact rel_due hs.within h rfl rfl
  have hacts := D.acts w i
  generalize D.act w i = w' at hacts ⊢
  cases hacts with
  | idle _ => exact h
  | query r script q _ => exact answer_due q h
  | call r script op ha hop => exact perform_due op script ha h (authorize_boots hop).2 (authorize_boots hop).1
  | tick script ha => exact perform_due .tick script ha h rfl rfl
  | tickStops script ha => exact perform_due (S := D.site) .tick script ha h rfl rfl
  | swallow script ha => exact htick script ha
  | swallowStops script ha => exact htick script ha
  | status file => exact h

theorem serveAll_due (s : Served) (is : List Input) (h : Due s.world) :
    Due (D.serveAll s is).world := by
  induction is generalizing s with
  | nil => exact h
  | cons i is ih =>
    have ha : Due (D.act { s.world with trace := [] } i) := act_due i h
    exact ih (D.serve s i) (drainAll_due _ ha)

/-- A new process has no deadline, and its start sets one only for a reset. -/
theorem restart_alive {built : List Choice} (h : (step S w (.restart built)).alive = true) :
    (step S w (.restart built)).jobDeadline = 0 := by
  change (Backend.construct S { w with alive := false, script := built }).2.alive = true at h
  change (Backend.construct S { w with alive := false, script := built }).2.jobDeadline = 0
  rcases hc : Backend.construct S { w with alive := false, script := built } with ⟨o, w'⟩
  rw [hc] at h
  cases o with
  | ret u => exact (Backend.construct_ret hc).2.2.2.2
  | raise e =>
    obtain ⟨c, w₁, w₂, hcore, hop, rfl⟩ := effect_raise hc
    split at hop
    · injection hop with _ hop
      subst hop
      have ha : w₁.alive = true := (authority_frame c.writes w₁).alive.symm.trans h
      rw [hcore] at ha
      simp at ha
    · simp at hop
  | crash =>
    rw [Backend.construct, effect_apply] at hc
    split at hc
    · injection hc with _ hc
      subst hc
      simp at h
    · split at hc <;> simp at hc

theorem launch_due {built script : List Choice} (h : (D.launchProcess built script w).alive = true) :
    Due (D.launchProcess built script w) := by
  unfold Daemon.launchProcess at h ⊢
  dsimp only at h ⊢
  split at h
  · rename_i ha
    rw [if_pos ha]
    have hg : (guarded D.site .start (entered .start script (step D.site w (.restart built)))).2.jobDeadline ≠ 0 →
        (guarded D.site .start (entered .start script (step D.site w (.restart built)))).2.state.resetIntent = true :=
      reset_inner (guarded_spec (S := D.site) .start script ha).within.inner
        (show callOf _ = some (.start, (step D.site w (.restart built)).failed) from rfl) rfl rfl
        fun hn => absurd (restart_alive ha) hn
    obtain ⟨hd, hst⟩ := perform_frame (S := D.site) .start script (step D.site w (.restart built))
    have hp : Due (perform D.site .start script (step D.site w (.restart built))).2 := by
      intro hn
      rw [hd] at hn
      rw [hst]
      exact .inr (hg hn)
    rcases hpf : perform D.site .start script (step D.site w (.restart built)) with ⟨o, w'⟩
    rw [hpf] at hp
    cases o with
    | ret r => exact hp
    | raise e => exact hp
    | crash => exact hp
  · rename_i ha
    exact absurd h ha

/-! ### Without the settings right -/

namespace Backend

/-- Configuration and transaction are as before, or an open transaction was settled. -/
def Settles (w w' : World) : Prop :=
  Keeps w w' ∨ (w.state.isOpen = true ∧ ∃ commit,
    w'.state.configuration = (w.state.settle commit).configuration ∧
      w'.state.pending = (w.state.settle commit).pending)

theorem Settles.refl (w : World) : Settles w w := .inl (Keeps.refl w)

theorem settle_closed (s : State) (commit : Bool) : (s.settle commit).isOpen = false := by
  cases commit with
  | true => rfl
  | false => rfl

theorem isOpen_congr {s s' : State} (h : s'.pending = s.pending) : s'.isOpen = s.isOpen := by
  rw [State.isOpen, State.isOpen, h]

/-- Settling reads the configuration and the transaction only. -/
theorem settle_congr {s s' : State} (hc : s'.configuration = s.configuration)
    (hp : s'.pending = s.pending) (commit : Bool) :
    (s'.settle commit).configuration = (s.settle commit).configuration ∧
      (s'.settle commit).pending = (s.settle commit).pending := by
  unfold State.settle State.next
  rw [hc, hp]
  exact ⟨rfl, rfl⟩

theorem Settles.trans (a b c : World) (h : Settles a b) (h' : Settles b c) : Settles a c := by
  obtain hk | ⟨ho, commit, hc, hp⟩ := h
  · obtain hk' | ⟨ho', commit', hc', hp'⟩ := h'
    · exact .inl (Keeps.trans a b c hk hk')
    · obtain ⟨h₁, h₂⟩ := settle_congr hk.1 hk.2 commit'
      exact .inr ⟨(isOpen_congr hk.2).symm.trans ho', commit', hc'.trans h₁, hp'.trans h₂⟩
  · obtain hk' | ⟨ho', -⟩ := h'
    · exact .inr ⟨ho, commit, hk'.1.trans hc, hk'.2.trans hp⟩
    · have hcl : b.state.isOpen = false := (isOpen_congr hp).trans (settle_closed a.state commit)
      rw [hcl] at ho'
      simp at ho'

theorem Settles.of_keeps {α : Type} {m : Prog α} (h : Within Keeps m w) : Within Settles m w := .inl h

theorem Settles.seq {α β : Type} {m : Prog α} {f : α → Prog β} (hm : Within Settles m w)
    (hf : ∀ a w', Within Settles (f a) w') : Within Settles (m >>= f) w :=
  Within.bind Settles.trans hm fun a w' _ => hf a w'

theorem settleNetwork_settles (commit bootstrap : Bool) (reason : Reason)
    (ho : w.state.isOpen = true) : Within Settles (settleNetwork commit bootstrap reason) w := by
  have hnet : Within Keeps (platformNetwork (w.state.next commit) bootstrap) w := by
    apply effect_keeps
    intro c w
    split <;> rfl
  unfold settleNetwork Within
  rw [gets_bind]
  apply Within.bind Settles.trans (Settles.of_keeps hnet)
  intro _ w₂ h₂
  have hk : Keeps w w₂ := by
    unfold Within at hnet
    rw [h₂] at hnet
    exact hnet
  apply Within.bind Settles.trans
  · exact .inr ⟨(isOpen_congr hk.2).trans ho, commit, rfl, rfl⟩
  · intro _ w₃ _
    apply Settles.seq (Settles.of_keeps (persist_keeps w₃))
    intro _ w₄
    exact Settles.refl w₄

theorem fileHash_keeps (w : World) : Within Keeps (fileHash S) w := by
  apply effect_keeps
  intro c w
  split
  · rfl
  · split <;> rfl

theorem recoverNetwork_settles (bootstrap : Bool) (w : World) :
    Within Settles (recoverNetwork S bootstrap) w := by
  unfold Within
  rw [recoverNetwork_apply]
  split
  · rename_i ho
    split
    · have hh := fileHash_keeps (S := S) w
      apply Within.bind Settles.trans (Settles.of_keeps hh)
      intro h w₁ h₁
      unfold Within at hh
      rw [h₁] at hh
      exact settleNetwork_settles _ _ _ ((isOpen_congr hh.2).trans ho)
    · exact settleNetwork_settles _ _ _ ho
  · exact Settles.refl w

theorem tick_settles (w : World) : Within Settles (tick S) w := by
  unfold tick
  apply Settles.seq (Within.gets Settles.refl _ w)
  intro failed w₁
  apply Settles.seq (Within.require Settles.refl _ _ w₁)
  intro _ w₂
  apply Settles.seq (Settles.of_keeps (tickObserve_keeps w₂))
  intro _ w₃
  apply Settles.seq
  · unfold tickExpire Within
    rw [gets_bind]
    split
    · apply Settles.seq (Settles.of_keeps (readClock_keeps w₃))
      intro t w₄
      split
      · exact recoverNetwork_settles false w₄
      · exact Settles.refl w₄
    · exact Settles.refl w₃
  · intro _ w₄
    exact Settles.of_keeps (tickDispatch_keeps w₄)

theorem remaining_keeps (s : State) (w : World) : Within Keeps (remaining s) w := by
  unfold remaining
  split
  · apply Keeps.bind (readClock_keeps w)
    intro t w₁ _
    split
    · exact Keeps.bind (readClock_keeps w₁) fun _ w₂ _ => Keeps.refl w₂
    · exact Keeps.refl w₁
  · exact Keeps.refl w

theorem networkTransaction_settles (w : World) : Within Settles (networkTransaction S) w := by
  unfold networkTransaction
  apply Settles.seq (tick_settles w)
  intro _ w₁
  apply Settles.seq (Within.gets Settles.refl _ w₁)
  intro s w₂
  apply Settles.seq (Settles.of_keeps (remaining_keeps s w₂))
  intro _ w₃
  exact Settles.refl w₃

/-- A job leaves configuration and transaction alone. -/
theorem acceptJob_keeps (job : Job) (reset : Bool) (actor requestId : Bytes) (w : World) :
    Within Keeps (acceptJob job reset actor requestId) w := by
  unfold acceptJob
  apply Keeps.bind (Keeps.assign ⟨rfl, rfl⟩)
  intro _ w₁ _
  apply Keeps.bind (persist_keeps w₁)
  intro _ w₂ _
  apply Keeps.bind (Within.gets Keeps.refl _ w₂)
  intro s w₃ _
  apply Keeps.bind (Keeps.assign (Keeps.refl w₃))
  intro _ w₄ _
  apply Keeps.bind (readClock_keeps w₄)
  intro t w₅ _
  exact Keeps.bind (Keeps.assign ⟨rfl, rfl⟩) fun _ w₆ _ => Keeps.refl w₆

theorem idle_keeps (w : World) : Within Keeps idle w := Keeps.of_state (by rw [idle_unchanged])

theorem randomId_keeps (w : World) : Within Keeps randomId w := by
  apply effect_keeps
  intro c w
  split <;> rfl

theorem power_keeps (action : PowerAction) (actor requestId : Bytes) (w : World) :
    Within Keeps (power action actor requestId) w := by
  unfold power
  apply Keeps.bind (idle_keeps w)
  intro _ w₁ _
  apply Keeps.bind (Within.require Keeps.refl _ _ w₁)
  intro _ w₂ _
  apply Keeps.bind (randomId_keeps w₂)
  intro id w₃ _
  exact acceptJob_keeps _ _ _ _ w₃

theorem storageStatus_keeps (path : Bytes) (w : World) : Within Keeps (storageStatus path) w := by
  apply effect_keeps
  intro c w
  split
  · rfl
  · split <;> rfl

theorem resetDevice_keeps (confirmed : Bool) (actor requestId : Bytes) (w : World) :
    Within Keeps (resetDevice S confirmed actor requestId) w := by
  have last : ∀ w, Within Keeps
      (randomId >>= fun id => acceptJob ⟨id, .deviceReset, .accepted⟩ true actor requestId) w := by
    intro w
    apply Keeps.bind (randomId_keeps w)
    intro id w₁ _
    exact acceptJob_keeps _ _ _ _ w₁
  unfold resetDevice
  apply Keeps.bind (Within.require Keeps.refl _ _ w)
  intro _ w₁ _
  apply Keeps.bind (idle_keeps w₁)
  intro _ w₂ _
  split
  · apply Keeps.bind (storageStatus_keeps _ w₂)
    rintro ⟨f, r⟩ w₃ _
    apply Keeps.bind (Within.require Keeps.refl _ _ w₃)
    intro _ w₄ _
    exact last w₄
  · exact last w₂

/-- What a call without the settings right does to configuration and transaction. -/
theorem call_settles (hs : op.isSettings = false) (hb : op.boots = false) (hst : op.starts = false)
    (w : World) : Within Settles (call S op) w := by
  cases op with
  | tick => exact Settles.seq (tick_settles w) fun _ w₁ => Settles.refl w₁
  | networkTransaction => exact Settles.seq (networkTransaction_settles w) fun _ w₁ => Settles.refl w₁
  | power action actor requestId =>
    exact Settles.seq (Settles.of_keeps (power_keeps action actor requestId w)) fun _ w₁ => Settles.refl w₁
  | resetDevice confirmed actor requestId =>
    exact Settles.seq (Settles.of_keeps (resetDevice_keeps confirmed actor requestId w))
      fun _ w₁ => Settles.refl w₁
  | bootstrap => simp [Op.boots] at hb
  | start => simp [Op.starts] at hst
  | apply config => simp [Op.isSettings] at hs
  | beginNetwork p actor requestId => simp [Op.isSettings] at hs
  | prepareNetworkCommit id => simp [Op.isSettings] at hs
  | finishNetwork id commit actor requestId => simp [Op.isSettings] at hs

/-- A request for a job leaves them as they are. -/
theorem call_keeps (hj : op.requestsJob = true) (w : World) : Within Keeps (call S op) w := by
  cases op with
  | power action actor requestId =>
    exact Keeps.bind (power_keeps action actor requestId w) fun _ w₁ _ => Keeps.refl w₁
  | resetDevice confirmed actor requestId =>
    exact Keeps.bind (resetDevice_keeps confirmed actor requestId w) fun _ w₁ _ => Keeps.refl w₁
  | _ => simp [Op.requestsJob] at hj

theorem checkpoint_keeps (w : World) : Within Keeps checkpoint w := effect_keeps (fun _ _ => rfl) w

end Backend

open Backend (Keeps Settles)

theorem Settles.of_state (hc : Settles w w') {w'' : World} (hs : w''.state = w'.state) :
    Settles w w'' :=
  Backend.Settles.trans w w' w'' hc (.inl (Keeps.of_state hs))

theorem perform_settles {script : List Choice} (hs : op.isSettings = false)
    (hb : op.boots = false) (hst : op.starts = false) (w : World) :
    Settles w (perform S op script w).2 := by
  have hg : Settles w (guarded S op (entered op script w)).2 := by
    apply Backend.Settles.seq (Backend.call_settles (S := S) hs hb hst (entered op script w))
    intro r w₁
    apply Backend.Settles.seq (Backend.Settles.of_keeps (Backend.checkpoint_keeps w₁))
    intro _ w₂
    exact Backend.Settles.refl w₂
  exact Settles.of_state hg (perform_frame op script w).2

theorem perform_keeps {script : List Choice} (hj : op.requestsJob = true) (w : World) :
    Keeps w (perform S op script w).2 := by
  have hg : Keeps w (guarded S op (entered op script w)).2 := by
    apply Keeps.bind (Backend.call_keeps (S := S) hj (entered op script w))
    intro r w₁ _
    exact Keeps.bind (Backend.checkpoint_keeps w₁) fun _ w₂ _ => Keeps.refl w₂
  exact Keeps.trans _ _ _ hg (Keeps.of_state (perform_frame op script w).2)

theorem drainAll_state (cs : List Choice) (w : World) : (drainAll cs w).state = w.state := by
  induction cs generalizing w with
  | nil => rfl
  | cons c cs ih =>
    rw [drainAll, ih]
    split
    · rfl
    · exact (authority_frame c.writes w).state

theorem answer_state (q : Query) (w : World) : (Daemon.answer q w).2.state = w.state := by
  unfold Daemon.answer
  split
  · rfl
  · have hd : w.draw.2.state = w.state := by rw [draw_core]
    obtain ha | ha := ask_world q w
    · rw [ha]
      exact hd
    · rw [ha, (authority_frame _ _).state]
      exact hd

/-- The input makes the Backend tick. -/
def Daemon.ticks (D : Daemon) : Input → Bool
  | .tick _ | .swallow _ => true
  | .request r _ =>
    match D.authorize r with
    | .ok (.call .networkTransaction) => true
    | _ => false
  | _ => false

/-- Without a request of a settings peer only a tick touches configuration and transaction, and
all it does is to settle an open transaction. -/
theorem act_settles (i : Input) (hi : i.comesFrom D.settingsPeer = false) :
    Settles w (D.act w i) ∧ (D.ticks i = false → Keeps w (D.act w i)) := by
  have htick : ∀ script,
      Settles w (Backend.tick D.site (entered .networkTransaction script w)).2 := fun script =>
    Backend.tick_settles (S := D.site) (entered .networkTransaction script w)
  have hkeep : ∀ {w' : World}, w'.state = w.state → Settles w w' ∧ (D.ticks i = false → Keeps w w') :=
    fun hs => ⟨.inl (Keeps.of_state hs), fun _ => Keeps.of_state hs⟩
  have hacts := D.acts w i
  generalize D.act w i = w' at hacts ⊢
  cases hacts with
  | idle _ => exact hkeep rfl
  | query r script q _ => exact hkeep (answer_state q _)
  | call r script op ha hop =>
    obtain ⟨hb, hst⟩ := authorize_boots hop
    refine ⟨perform_settles (settings_refused hop hi) hb hst w, ?_⟩
    intro ht
    obtain rfl | hs | hj := authorize_serves hop
    · simp [Daemon.ticks, hop] at ht
    · rw [settings_refused hop hi] at hs
      simp at hs
    · exact perform_keeps hj w
  | tick script ha => exact ⟨perform_settles rfl rfl rfl w, fun ht => by simp [Daemon.ticks] at ht⟩
  | tickStops script ha =>
    have hp : Settles w (perform D.site .tick script w).2 := perform_settles rfl rfl rfl w
    exact ⟨Settles.of_state hp rfl, fun ht => by simp [Daemon.ticks] at ht⟩
  | swallow script ha => exact ⟨htick script, fun ht => by simp [Daemon.ticks] at ht⟩
  | swallowStops script ha =>
    exact ⟨Settles.of_state (htick script) rfl, fun ht => by simp [Daemon.ticks] at ht⟩
  | status file => exact hkeep rfl

theorem serve_settles (s : Served) (i : Input) (hi : i.comesFrom D.settingsPeer = false) :
    Settles s.world (D.serve s i).world ∧
      (D.ticks i = false → Keeps s.world (D.serve s i).world) := by
  obtain ⟨hs, hk⟩ := act_settles (D := D) (w := { s.world with trace := [] }) i hi
  have hd : (D.serve s i).world.state = (D.act { s.world with trace := [] } i).state :=
    drainAll_state _ _
  exact ⟨Settles.of_state hs hd, fun ht => Keeps.trans _ _ _ (hk ht) (Keeps.of_state hd)⟩

theorem serveAll_settles (s : Served) (is : List Input)
    (hi : ∀ i ∈ is, i.comesFrom D.settingsPeer = false) :
    Settles s.world (D.serveAll s is).world := by
  induction is generalizing s with
  | nil => exact Backend.Settles.refl s.world
  | cons i is ih =>
    have h₁ := (serve_settles s i (hi i (List.mem_cons_self ..))).1
    have h₂ := ih (D.serve s i) fun j hj => hi j (List.mem_cons_of_mem _ hj)
    exact Backend.Settles.trans _ _ _ h₁ h₂

/-! ### Without either right -/

/-- Two worlds that differ in their history only, and there not in the calls of the platform. -/
structure Same (w w' : World) : Prop where
  world : { w with trace := [] } = { w' with trace := [] }
  calls : w.trace.filter Entry.changesPlatform = w'.trace.filter Entry.changesPlatform

theorem Same.refl (w : World) : Same w w := ⟨rfl, rfl⟩

theorem Same.trans {w'' : World} (h : Same w w') (h' : Same w' w'') : Same w w'' :=
  ⟨h.world.trans h'.world, h.calls.trans h'.calls⟩

theorem Same.symm (h : Same w w') : Same w' w := ⟨h.world.symm, h.calls.symm⟩

theorem Same.log {e : Entry} (he : e.changesPlatform = false) (w : World) : Same (w.log e) w := by
  refine ⟨rfl, ?_⟩
  change (e :: w.trace).filter Entry.changesPlatform = _
  rw [List.filter_cons_of_neg (by simp [he])]

/-- A change outside the history that both worlds make. -/
theorem Same.update (h : Same w w') (f : World → World)
    (hf : ∀ w : World, { f w with trace := [] } = f { w with trace := [] })
    (ht : ∀ w : World, (f w).trace = w.trace) : Same (f w) (f w') := by
  refine ⟨?_, ?_⟩
  · rw [hf, hf, h.world]
  · rw [ht, ht]
    exact h.calls

theorem Same.write (h : Same w w') (v : Bytes) : Same (w.write v) (w'.write v) := by
  have hw : Same { w with settings := some v } { w' with settings := some v } :=
    h.update (fun w => { w with settings := some v }) (fun _ => rfl) fun _ => rfl
  have h₁ : Same (w.write v) { w with settings := some v } :=
    Same.log (e := .written v w.journal) rfl { w with settings := some v }
  have h₂ : Same (w'.write v) { w' with settings := some v } :=
    Same.log (e := .written v w'.journal) rfl { w' with settings := some v }
  exact (h₁.trans hw).trans h₂.symm

theorem Same.authority (h : Same w w') (vs : List Bytes) : Same (w.authority vs) (w'.authority vs) := by
  induction vs generalizing w w' with
  | nil => exact h
  | cons v vs ih => exact ih (h.write v)

theorem Same.drainAll (h : Same w w') (cs : List Choice) :
    Same (System.drainAll cs w) (System.drainAll cs w') := by
  induction cs generalizing w w' with
  | nil => exact h
  | cons c cs ih =>
    apply ih
    split
    · exact h.update (fun w => { w with alive := false }) (fun _ => rfl) fun _ => rfl
    · exact h.authority c.writes

theorem Same.drain (h : Same w w') : Same w.drain w'.drain := by
  have hs := congrArg World.script h.world
  dsimp only at hs
  unfold World.drain
  rw [hs]
  exact (h.update (fun w => { w with script := [] }) (fun _ => rfl) fun _ => rfl).drainAll _

theorem authority_script (vs : List Bytes) (w : World) (cs : List Choice) :
    { w.authority vs with script := cs } = World.authority vs { w with script := cs } := by
  induction vs generalizing w with
  | nil => rfl
  | cons v vs ih => exact ih (w.write v)

/-- An effect that does nothing but take its time: the environment does the same without it. -/
theorem effect_drain {α : Type} {op : Choice → World → Outcome Error α × World}
    (hop : ∀ c w, Same (op c w).2 w) (w : World) : Same (effect op w).2.drain w.drain := by
  rw [effect_apply]
  cases hs : w.script with
  | nil =>
    have hd : w.draw = ({}, w) := by
      unfold World.draw
      rw [hs]
    rw [hd]
    exact (hop {} w).drain
  | cons c cs =>
    have hd : w.draw = (c, { w with script := cs }) := by
      unfold World.draw
      rw [hs]
    rw [hd]
    have hw : w.drain = drainAll cs
        (if c.crash then { w with script := [], alive := false }
          else World.authority c.writes { w with script := [] }) := by
      unfold World.drain
      rw [hs]
      rfl
    rw [hw]
    split
    · exact Same.refl _
    · have ha := ((hop c { w with script := cs }).authority c.writes).drain
      refine ha.trans ?_
      unfold World.drain
      rw [(authority_rest c.writes _).2.2, authority_script]
      exact Same.refl _

theorem take_congr {s : Served} (h : Same w w') : s.take w = s.take w' := by
  unfold Served.take
  rw [h.world, h.calls]

theorem answer_drain (q : Query) (w : World) : Same (Daemon.answer q w).2.drain w.drain := by
  unfold Daemon.answer
  split
  · exact Same.refl _
  · apply effect_drain
    intro c w
    split
    · exact Same.refl w
    · exact Same.refl w

/-- A program all of whose effects only take their time, and may stop the process. -/
structure Idles {α : Type} (m : Prog α) : Prop where
  drained : ∀ w, Same (m w).2.drain w.drain
  stops : ∀ w w', m w = (.crash, w') → w'.alive = false

theorem Idles.bind {α β : Type} {m : Prog α} {f : α → Prog β} (hm : Idles m)
    (hf : ∀ a, Idles (f a)) : Idles (m >>= f) := by
  refine ⟨?_, ?_⟩
  · intro w
    have h := hm.drained w
    rw [bind_apply]
    rcases hmw : m w with ⟨o, w'⟩
    rw [hmw] at h
    cases o with
    | ret a => exact ((hf a).drained w').trans h
    | raise e => exact h
    | crash => exact h
  · intro w w'' h
    rw [bind_apply] at h
    rcases hmw : m w with ⟨o, w'⟩
    rw [hmw] at h
    cases o with
    | ret a => exact (hf a).stops w' w'' h
    | raise e => simp at h
    | crash =>
      injection h with _ h
      subst h
      exact hm.stops w w' hmw

theorem Idles.pure {α : Type} (a : α) : Idles (Pure.pure a : Prog α) :=
  ⟨fun w => Same.refl w.drain, by simp⟩

theorem Idles.effect {α : Type} {op : Choice → World → Outcome Error α × World}
    (hop : ∀ c w, Same (op c w).2 w) (hc : ∀ c w, (op c w).1 ≠ .crash) : Idles (effect op) := by
  refine ⟨effect_drain hop, ?_⟩
  intro w w' h
  rw [effect_apply] at h
  split at h
  · injection h with _ h
    rw [← h]
  · exact absurd (congrArg Prod.fst h) (hc _ _)

theorem readClock_idles : Idles readClock :=
  Idles.effect (fun _ w => Same.log rfl w) fun _ _ => by simp

theorem remaining_idles (s : State) : Idles (Backend.remaining s) := by
  unfold Backend.remaining
  split
  · apply Idles.bind readClock_idles
    intro t
    split
    · exact Idles.bind readClock_idles fun t => Idles.pure _
    · exact Idles.pure _
  · exact Idles.pure _

theorem checkpoint_idles : Idles checkpoint :=
  Idles.effect (fun _ w => Same.refl w) fun _ _ => by simp

/-- What the query for the transaction does after its tick. -/
def afterTick : Prog Backend.Reply := fun w =>
  (Backend.remaining w.state >>= fun ms => checkpoint >>= fun _ =>
    Pure.pure (.transaction { w.state.pending.transaction with remainingMs := ms })) w

theorem afterTick_idles : Idles afterTick := by
  have h : ∀ s : State, Idles (Backend.remaining s >>= fun ms => checkpoint >>= fun _ =>
      (Pure.pure (.transaction { s.pending.transaction with remainingMs := ms }) :
        Prog Backend.Reply)) := fun s =>
    Idles.bind (remaining_idles s) fun ms => Idles.bind checkpoint_idles fun _ => Idles.pure _
  exact ⟨fun w => (h w.state).drained w, fun w w' => (h w.state).stops w w'⟩

theorem guarded_transaction :
    guarded S .networkTransaction = Backend.tick S >>= fun _ => afterTick := by
  unfold guarded Backend.call Backend.networkTransaction
  simp only [bind_assoc]
  rfl

/-- The query for the transaction is worth its tick: what it reads and reports after it
changes nothing. -/
theorem transaction_swallowed (script : List Choice) (w : World) :
    Same (perform D.site .networkTransaction script w).2.drain (D.swallow script w).drain := by
  unfold perform Daemon.swallow
  rw [guarded_transaction, bind_apply]
  rcases Backend.tick D.site (entered .networkTransaction script w) with ⟨o, u⟩
  cases o with
  | ret v =>
    dsimp only
    have hd := afterTick_idles.drained u
    rcases hr : afterTick u with ⟨o', u'⟩
    rw [hr] at hd
    cases o' with
    | ret r => exact (Same.log (e := .returned .networkTransaction) rfl u').drain.trans hd
    | raise e => exact (Same.log (e := .raised .networkTransaction) rfl u').drain.trans hd
    | crash =>
      have ha := afterTick_idles.stops u u' hr
      have hl : Same { u' with alive := false, trace := .cut :: u'.trace } u' := by
        have hu : { u' with alive := false } = u' := by rw [← ha]
        have hs := Same.log (e := .cut) rfl { u' with alive := false }
        rw [hu] at hs
        have hcut : { u' with alive := false, trace := .cut :: u'.trace } = u'.log .cut := by
          rw [← ha]
          rfl
        rw [hcut]
        exact hs
      exact hl.drain.trans hd
  | raise e => exact (Same.log (e := .raised .networkTransaction) rfl u).drain
  | crash => exact (Same.log (e := .cut) rfl { u with alive := false }).drain

/-- A request for the transaction that can be read. -/
def Daemon.asksTransaction (D : Daemon) (r : Request) : Bool :=
  r.member == ascii "GetNetworkTransaction" && r.peer.isOk &&
    r.body.any fun json => (decode D.read.empty json).isOk

theorem isOk_ok {ε α : Type} {x : Except ε α} (h : x.isOk = true) : ∃ a, x = .ok a := by
  cases x with
  | ok a => exact ⟨a, rfl⟩
  | error e => simp [Except.isOk, Except.toBool] at h

theorem dispatch_transaction {uid : UInt32} {json : Bytes} {u : Unit}
    (h : decode D.read.empty json = .ok u) :
    D.dispatch uid (ascii "GetNetworkTransaction") json = .ok (.call .networkTransaction) := by
  unfold Daemon.dispatch
  rw [if_neg (by decide), if_neg (by decide), if_neg (by decide),
    if_neg (by decide), if_neg (by decide), if_neg (by decide),
    if_neg (by decide), if_pos rfl, h]
  rfl

theorem asksTransaction_iff :
    D.asksTransaction r = true ↔ D.authorize r = .ok (.call .networkTransaction) := by
  constructor
  · intro h
    simp only [Daemon.asksTransaction, Bool.and_eq_true, beq_iff_eq] at h
    obtain ⟨⟨hm, hp⟩, hb⟩ := h
    obtain ⟨uid, hp⟩ := isOk_ok hp
    cases hj : r.body with
    | none =>
      rw [hj] at hb
      simp at hb
    | some json =>
      rw [hj] at hb
      obtain ⟨u, hu⟩ := isOk_ok hb
      have ha : Access.allowed (ascii "GetNetworkTransaction") uid D.settingsUid D.controlUid = true := by
        unfold Access.allowed
        rw [if_neg (by decide), if_neg (by decide)]
        decide
      unfold Daemon.authorize
      rw [hp, hm, hj]
      simp only [bind, Except.bind]
      rw [if_pos ha]
      exact dispatch_transaction hu
  · intro h
    obtain ⟨uid, json, hp, -, hb, hd⟩ := authorize_ok h
    obtain ⟨-, hn, u, hu⟩ | ⟨hs, -⟩ | ⟨hj, -⟩ := dispatch_class hd
    · simp [Daemon.asksTransaction, hn, hp, hb, hu, Except.isOk, Except.toBool]
    · simp [Op.isSettings] at hs
    · simp [Op.requestsJob] at hj

/-- A request of a peer without rights, as the run without such requests has it. -/
def Daemon.mask (D : Daemon) : Input → Input
  | .request r script =>
    if r.comesFrom D.settingsPeer || r.comesFrom D.controlPeer then .request r script
    else if D.asksTransaction r then .swallow script
    else .pause script
  | i => i

theorem request_mask (r : Request) (script : List Choice) (w : World)
    (hs : r.comesFrom D.settingsPeer = false) (hc : r.comesFrom D.controlPeer = false) :
    Same (D.act w (.request r script)).drain
      (D.act w (if D.asksTransaction r then .swallow script else .pause script)).drain := by
  by_cases ha : w.alive = true
  · by_cases ht : D.asksTransaction r = true
    · rw [if_pos ht, Daemon.act, if_pos ha, D.request_world (asksTransaction_iff.mp ht), Daemon.act,
        if_pos ha]
      exact transaction_swallowed script w
    · rw [if_neg ht, Daemon.act, if_pos ha, Daemon.act]
      unfold Daemon.request
      cases h : D.authorize r with
      | error e => exact Same.refl _
      | ok a =>
        cases a with
        | query q => exact answer_drain q { w with script := script }
        | call op =>
          -- The only call that is left to such a peer is the query for the transaction.
          obtain rfl | hset | hj := authorize_serves h
          · exact absurd (asksTransaction_iff.mpr h) ht
          · rw [settings_refused h hs] at hset
            simp at hset
          · rw [control_refused h hc] at hj
            simp at hj
  · by_cases ht : D.asksTransaction r = true
    · rw [if_pos ht, Daemon.act, if_neg ha, Daemon.act, if_neg ha]
      exact Same.refl _
    · rw [if_neg ht, Daemon.act, if_neg ha, Daemon.act]
      exact Same.refl _

theorem serve_mask (s : Served) (i : Input) : D.serve s (D.mask i) = D.serve s i := by
  cases i with
  | request r script =>
    by_cases hr : (r.comesFrom D.settingsPeer || r.comesFrom D.controlPeer) = true
    · rw [Daemon.mask, if_pos hr]
    · rw [Daemon.mask, if_neg hr]
      simp only [Bool.or_eq_true, not_or, Bool.not_eq_true] at hr
      exact (take_congr (request_mask r script { s.world with trace := [] } hr.1 hr.2)).symm
  | tick script => rfl
  | swallow script => rfl
  | pause script => rfl
  | status file => rfl

theorem serveAll_mask (s : Served) (is : List Input) :
    D.serveAll s (is.map D.mask) = D.serveAll s is := by
  induction is generalizing s with
  | nil => rfl
  | cons i is ih =>
    change D.serveAll (D.serve s (D.mask i)) (is.map D.mask) = D.serveAll (D.serve s i) is
    rw [serve_mask]
    exact ih (D.serve s i)

/-- Privilege separation. The service has started and has taken any inputs `before`; it has no
accepted job and no reset intent. Without requests of a control peer no power call is made and
no reset is intended; without requests of a settings peer the transaction is only ever settled,
by a tick; and every request of a peer without rights is worth a bare tick, if it asks for the
transaction in a text that can be read, and nothing otherwise. -/
theorem privilege_separation (D : Daemon) (w : World) (built script : List Choice)
    (before is : List Input) (s : Served)
    (halive : (D.launchProcess built script w).alive = true)
    (hs : s = ⟨(D.serveAll ⟨D.launchProcess built script w, []⟩ before).world, []⟩)
    (hjob : s.world.state.job.state ≠ .accepted) (hintent : s.world.state.resetIntent = false) :
    ((∀ i ∈ is, i.comesFrom D.controlPeer = false) →
      (∀ e ∈ (D.serveAll s is).calls, e.isPower = false) ∧
        (D.serveAll s is).world.state.resetIntent = false) ∧
    ((∀ i ∈ is, i.comesFrom D.settingsPeer = false) →
      Settles s.world (D.serveAll s is).world ∧
        ∀ us i vs, is = us ++ i :: vs → D.ticks i = false →
          Keeps (D.serveAll s us).world (D.serveAll s (us ++ [i])).world) ∧
    D.serveAll s (is.map D.mask) = D.serveAll s is := by
  refine ⟨?_, ?_, serveAll_mask s is⟩
  · intro hi
    have hdue : Due s.world := by
      rw [hs]
      exact serveAll_due _ before (launch_due halive)
    have hdl : s.world.jobDeadline = 0 := by
      by_contra hn
      obtain ha | hr := hdue hn
      · exact hjob ha
      · rw [hintent] at hr
        simp at hr
    have hrest : Resting { s.world with trace := [] } := ⟨hdl, hintent, by simp⟩
    have hcalls : s.calls = [] := by rw [hs]
    cases is with
    | nil =>
      refine ⟨?_, hintent⟩
      intro e he
      change e ∈ s.calls at he
      rw [hcalls] at he
      simp at he
    | cons i is =>
      -- The first input clears the history, so what it held before does not matter.
      have hfirst : D.serve s i = D.serve ⟨{ s.world with trace := [] }, []⟩ i := by
        unfold Daemon.serve Served.take
        rw [hcalls]
      have h := serveAll_rests (D := D) ⟨{ s.world with trace := [] }, []⟩ (i :: is) hrest hi
        (by simp)
      change (∀ e ∈ (D.serveAll (D.serve s i) is).calls, _) ∧ (D.serveAll (D.serve s i) is).world.state.resetIntent = false
      rw [hfirst]
      exact ⟨h.2, h.1.intent⟩
  · intro hi
    refine ⟨serveAll_settles s is hi, ?_⟩
    rintro us i vs rfl ht
    have hone : D.serveAll s (us ++ [i]) = D.serve (D.serveAll s us) i := by
      simp [Daemon.serveAll]
    rw [hone]
    exact (serve_settles _ i (hi i (by simp))).2 ht

namespace Fixture

/-- The texts that the peers of the runs below send, and what Glaze reads from them. -/
def emptyText : Bytes := ascii "\x7b\x7d"

def rebootText : Bytes := ascii "\x7b\"action\":\"reboot\"\x7d"

def proposalText : Bytes :=
  ascii "\x7b\"network\":[\x7b\"interface\":\"end0\",\"mode\":\"static_ipv4\"," ++
    ascii "\"address\":\"10.0.0.2\",\"gateway\":\"10.0.0.1\",\"preferred_default\":true\x7d]," ++
    ascii "\"previous_settings_hash\":\"" ++ previousHash ++
    ascii "\",\"candidate_settings_hash\":\"" ++ candidateHash ++ ascii "\"\x7d"

def unexpected {α : Type} : Except Bytes α := .error (ascii "expected_brace")

def codec : Codec where
  empty text := if text = emptyText then .ok () else unexpected
  configuration _ := unexpected
  proposal text := if text = proposalText then .ok (proposal, {}) else unexpected
  id _ := unexpected
  finish _ := unexpected
  power text := if text = rebootText then .ok (.reboot, {}) else unexpected
  reset _ := unexpected

def daemon : Daemon where
  site := site
  settingsUid := some 100
  controlUid := some 200
  read := codec

def ask (uid : UInt32) (member : String) (body : Bytes) (script : List Choice) : Input :=
  .request ⟨.ok uid, ascii member, some body⟩ script

/-- A service that a settings peer has asked for the static network. -/
def proposed : List Input := [ask 100 "BeginNetwork" proposalText [{}, {}, { id := id }]]

def served (before : List Input) : Served :=
  ⟨(daemon.serveAll ⟨daemon.launchProcess [] [{ config := config }] device, []⟩ before).world, []⟩

/-- Two minutes later another peer asks for a reboot and for the transaction. -/
def late : List Choice := List.replicate 8 { time := 120000 }

def strangers (body : Bytes) : List Input :=
  [ask 999 "Power" rebootText [], ask 999 "GetNetworkTransaction" body late]

end Fixture

open Fixture

theorem privilege_separation_strangers :
    (daemon.serveAll (served proposed) (strangers emptyText)).calls = [.network dhcp false] ∧
    (daemon.serveAll (served proposed) (strangers emptyText)).world.state.resetIntent = false ∧
    (daemon.serveAll (served proposed) (strangers emptyText)).world.state.pending.transaction.state =
      .rolledBack ∧
    Settles (served proposed).world (daemon.serveAll (served proposed) (strangers emptyText)).world ∧
    daemon.serveAll (served proposed) ((strangers emptyText).map daemon.mask) =
      daemon.serveAll (served proposed) (strangers emptyText) := by
  have halive : (daemon.launchProcess [] [{ config := config }] device).alive = true := by
    decide
  have hstart : (served proposed).world.state.job.state ≠ .accepted ∧
      (served proposed).world.state.resetIntent = false ∧
      (daemon.serveAll (served proposed) (strangers emptyText)).calls = [.network dhcp false] ∧
      (daemon.serveAll (served proposed) (strangers emptyText)).world.state.pending.transaction.state =
        .rolledBack := by decide +kernel
  obtain ⟨hjob, hintent, hcalls, hstate⟩ := hstart
  have h := privilege_separation daemon device [] [{ config := config }] proposed (strangers emptyText)
    (served proposed) halive rfl hjob hintent
  refine ⟨hcalls, (h.1 ?_).2, hstate, (h.2.1 ?_).1, h.2.2⟩
  · decide
  · decide

/-- A request without rights replaced by its member name alone. -/
def Daemon.maskByName (D : Daemon) : Input → Input
  | .request r script =>
    if r.comesFrom D.settingsPeer || r.comesFrom D.controlPeer then .request r script
    else if r.member == ascii "GetNetworkTransaction" then .swallow script
    else .pause script
  | i => i

/-- The request for the transaction whose text cannot be read does not tick: the transaction that
a tick would roll back is still pending. -/
theorem unread_query_does_not_tick :
    (daemon.launchProcess [] [{ config := config }] device).alive = true ∧
    (served proposed).world.state.job.state ≠ .accepted ∧
    (served proposed).world.state.resetIntent = false ∧
    (daemon.serveAll (served proposed) (strangers [])).world.state.pending.transaction.state =
      .pending ∧
    (daemon.serveAll (served proposed)
      ((strangers []).map daemon.maskByName)).world.state.pending.transaction.state = .rolledBack := by
  decide +kernel

end Monutchee.System
