import Monutchee.System.Protocol

/-!
# What single effects do

Each effect is a short path of moves, and an effect that returns leaves the process as
it was (`Frame`): its members and the journal are unchanged, and the history grew by the
effect's own entry and by writes of the settings authority. The history functions do not
see such writes.
-/

namespace Monutchee.System
open Lib Lib.Act Relation

variable {S : Site} {w w' : World} {α : Type}

/-- The same call is in progress, and only a call for a job creates one. -/
structure Steady (t t' : List Entry) : Prop where
  call : callOf t' = callOf t
  created : during Op.requestsJob t = false → createdInCall t = false → createdInCall t' = false

theorem Steady.during {t t' : List Entry} (h : Steady t t') (p : Op → Bool) :
    during p t' = System.during p t := by
  unfold System.during
  rw [h.call]

theorem Steady.refl (t : List Entry) : Steady t t := ⟨rfl, fun _ h => h⟩

theorem Steady.trans {t t' t'' : List Entry} (h : Steady t t') (h' : Steady t' t'') :
    Steady t t'' := by
  refine ⟨h'.call.trans h.call, ?_⟩
  intro hr hc
  exact h'.created ((h.during _).trans hr) (h.created hr hc)

/-- The relation that all programs stay inside. -/
structure Rel (S : Site) (w w' : World) : Prop where
  inner : ReflTransGen (Inner S) w.toCore w'.toCore
  steady : Steady w.trace w'.trace

theorem Rel.refl (w : World) : Rel S w w := ⟨ReflTransGen.refl, Steady.refl _⟩

theorem Rel.trans (a b c : World) (h : Rel S a b) (h' : Rel S b c) : Rel S a c :=
  ⟨ReflTransGen.trans h.inner h'.inner, h.steady.trans h'.steady⟩

theorem Rel.path (h : Rel S w w') : Path S w.toCore w'.toCore := path_of_inner h.inner

theorem Rel.move (h : Move S w.toCore w'.toCore) (hs : Steady w.trace w'.trace) : Rel S w w' :=
  ⟨ReflTransGen.single ⟨h, hs.call⟩, hs⟩

theorem Rel.of_eq (h : w'.toCore = w.toCore) : Rel S w w' := by
  refine ⟨?_, ?_⟩
  · rw [h]
  · rw [h]
    exact Steady.refl _

/-- Entries that neither open nor close a call and create no job. -/
def Entry.plain : Entry → Bool
  | .call _ _ | .returned _ | .raised _ | .cut | .constructed | .created _ | .dispatching => false
  | _ => true

theorem Steady.cons {e : Entry} (he : e.plain = true) (t : List Entry) : Steady t (e :: t) := by
  cases e with
  | call op l => simp [Entry.plain] at he
  | returned op => simp [Entry.plain] at he
  | raised op => simp [Entry.plain] at he
  | cut => simp [Entry.plain] at he
  | constructed => simp [Entry.plain] at he
  | created job => simp [Entry.plain] at he
  | dispatching => simp [Entry.plain] at he
  | _ => exact ⟨rfl, fun _ h => h⟩

/-! ### Writes of the settings authority -/

def Entry.isWritten : Entry → Bool
  | .written _ _ => true
  | _ => false

theorem authority_path (vs : List Bytes) (w : World) : Rel S w (w.authority vs) := by
  induction vs generalizing w with
  | nil => exact Rel.refl w
  | cons v vs ih => exact Rel.trans _ _ _ (Rel.move (Move.write v) (Steady.cons rfl _)) (ih (w.write v))

/-- Entries that no history function of the protocol sees but the one they are about. -/
def Entry.passing : Entry → Bool
  | .written _ _ | .reading _ => true
  | _ => false

/-- The history grew by `es` and by writes of the authority or clock readings after them. -/
def Grown (es t t' : List Entry) : Prop :=
  ∃ ws : List Entry, (∀ e ∈ ws, e.passing = true) ∧ t' = ws ++ (es ++ t)

structure Frame (es : List Entry) (w w' : World) : Prop where
  alive : w'.alive = w.alive
  state : w'.state = w.state
  failed : w'.failed = w.failed
  jobDeadline : w'.jobDeadline = w.jobDeadline
  journal : w'.journal = w.journal
  trace : Grown es w.trace w'.trace

theorem authority_frame (vs : List Bytes) (w : World) : Frame [] w (w.authority vs) := by
  induction vs generalizing w with
  | nil => exact ⟨rfl, rfl, rfl, rfl, rfl, [], by simp, rfl⟩
  | cons v vs ih =>
    obtain ⟨ha, hs, hf, hj, hd, ws, hw, ht⟩ := ih (w.write v)
    refine ⟨ha, hs, hf, hj, hd, ws ++ [.written v w.journal], ?_, ?_⟩
    · intro e he
      rcases List.mem_append.mp he with he | he
      · exact hw e he
      · rw [List.mem_singleton.mp he]
        rfl
    · have hcons : (w.write v).trace = .written v w.journal :: w.trace := rfl
      change (World.authority vs (w.write v)).trace = _
      rw [ht, hcons]
      simp

/-- The rest of the world under writes. -/
theorem authority_journal (vs : List Bytes) (w : World) : (w.authority vs).journal = w.journal :=
  (authority_frame vs w).journal

theorem authority_rest (vs : List Bytes) (w : World) :
    (w.authority vs).tree = w.tree ∧ (w.authority vs).status = w.status ∧
      (w.authority vs).script = w.script := by
  induction vs generalizing w with
  | nil => exact ⟨rfl, rfl, rfl⟩
  | cons v vs ih => exact ih (w.write v)

/-! ### History functions under a frame -/

theorem findSome?_passing {β : Type} (g : Entry → Option β) (hg : ∀ v d, g (.written v d) = none)
    (hr : ∀ u, g (.reading u) = none) (ws t : List Entry) (hw : ∀ e ∈ ws, e.passing = true) :
    (ws ++ t).findSome? g = t.findSome? g := by
  induction ws with
  | nil => rfl
  | cons e ws ih =>
    have he : e.passing = true := hw e (List.mem_cons_self ..)
    have ih := ih fun x hx => hw x (List.mem_cons_of_mem _ hx)
    cases e with
    | written v d =>
      simp only [List.cons_append, List.findSome?_cons, hg]
      exact ih
    | reading u =>
      simp only [List.cons_append, List.findSome?_cons, hr]
      exact ih
    | _ => simp [Entry.passing] at he

namespace Grown
variable {es t t' : List Entry}

/-- Where the last entry of some kind is looked for, writes and readings are passed over. -/
theorem findSome? {β : Type} {g : Entry → Option β} (h : Grown es t t') (hg : ∀ v d, g (.written v d) = none)
    (hr : ∀ u, g (.reading u) = none) : t'.findSome? g = (es ++ t).findSome? g := by
  obtain ⟨ws, hw, ht⟩ := h
  rw [ht, findSome?_passing g hg hr ws _ hw]

theorem running (h : Grown es t t') : running t' = System.running (es ++ t) := by
  unfold System.running
  rw [h.findSome? (fun _ _ => rfl) fun _ => rfl]

theorem lastApplied (h : Grown es t t') : lastApplied t' = System.lastApplied (es ++ t) := by
  unfold System.lastApplied
  rw [h.findSome? (fun _ _ => rfl) fun _ => rfl]

theorem hashRead (h : Grown es t t') : hashRead t' = System.hashRead (es ++ t) := by
  unfold System.hashRead
  rw [h.findSome? (fun _ _ => rfl) fun _ => rfl]

theorem callOf (h : Grown es t t') : callOf t' = System.callOf (es ++ t) := by
  unfold System.callOf
  rw [h.findSome? (fun _ _ => rfl) fun _ => rfl]

theorem booting (h : Grown es t t') : booting t' = System.booting (es ++ t) := by
  unfold System.booting
  rw [h.findSome? (fun _ _ => rfl) fun _ => rfl]

theorem createdInCall (h : Grown es t t') : createdInCall t' = System.createdInCall (es ++ t) := by
  unfold System.createdInCall
  rw [h.findSome? (fun _ _ => rfl) fun _ => rfl]

theorem handoff (h : Grown es t t') : handoff t' = System.handoff (es ++ t) := by
  unfold System.handoff
  rw [h.findSome? (fun _ _ => rfl) fun _ => rfl]

/-- Where nothing here ends the entries that are looked at, they only grow. -/
theorem takeWhile {p : Entry → Bool} (h : Grown es t t') (hpass : ∀ e, e.passing = true → p e = true)
    (hes : ∀ e ∈ es, p e = true) {e : Entry} (he : e ∈ es ++ t.takeWhile p) : e ∈ t'.takeWhile p := by
  obtain ⟨ws, hw, ht⟩ := h
  have hws : ∀ e ∈ ws, p e = true := fun e he => hpass e (hw e he)
  rw [ht, List.takeWhile_append_of_pos hws, List.takeWhile_append_of_pos hes]
  exact List.mem_append_right ws he

theorem since (h : Grown es t t') (hes : ∀ e ∈ es, e.entersBootstrap = false) {e : Entry}
    (he : e ∈ es ++ sinceBootstrap t) : e ∈ sinceBootstrap t' := by
  apply h.takeWhile ?_ ?_ he
  · intro e hpass
    cases e with
    | written v d => rfl
    | reading u => rfl
    | _ => simp [Entry.passing] at hpass
  · intro e he
    rw [hes e he]
    rfl

theorem sinceCall (h : Grown es t t') (hes : ∀ e ∈ es, e.isCall = false) {e : Entry}
    (he : e ∈ es ++ sinceCall t) : e ∈ System.sinceCall t' := by
  apply h.takeWhile ?_ ?_ he
  · intro e hpass
    cases e with
    | written v d => rfl
    | reading u => rfl
    | _ => simp [Entry.passing] at hpass
  · intro e he
    rw [hes e he]
    rfl

end Grown

namespace Frame
variable {es : List Entry}

theorem refl (w : World) : Frame [] w w := ⟨rfl, rfl, rfl, rfl, rfl, [], by simp, rfl⟩

theorem comp {w'' : World} {fs : List Entry} (h : Frame es w w') (h' : Frame [] w' w'')
    (hfs : fs = es) : Frame fs w w'' := by
  subst hfs
  obtain ⟨ws, hw, ht⟩ := h.trace
  obtain ⟨vs, hv, hu⟩ := h'.trace
  refine ⟨h'.alive.trans h.alive, h'.state.trans h.state, h'.failed.trans h.failed,
    h'.jobDeadline.trans h.jobDeadline, h'.journal.trans h.journal, vs ++ ws, ?_, ?_⟩
  · intro e he
    rcases List.mem_append.mp he with he | he
    · exact hv e he
    · exact hw e he
  · rw [hu, ht]
    simp

end Frame

/-! ### Paths -/

theorem inside_refl (p : Bytes) : inside p p = true := by
  unfold inside
  exact List.isPrefixOf_iff_prefix.mpr (List.prefix_refl _)

theorem inside_trans {p q r : Bytes} (h : inside p q = true) (h' : inside q r = true) :
    inside p r = true := by
  unfold inside at *
  rw [List.isPrefixOf_iff_prefix] at *
  exact h.trans h'

/-! ### The effect combinator -/

theorem draw_core (w : World) : w.draw.2.toCore = w.toCore := by
  unfold World.draw
  split
  · rfl
  · rfl

theorem effect_apply (op : Choice → World → Outcome Error α × World) (w : World) :
    effect op w =
      if w.draw.1.crash then (.crash, { w.draw.2 with alive := false })
      else ((op w.draw.1 w.draw.2).1, (op w.draw.1 w.draw.2).2.authority w.draw.1.writes) := rfl

theorem effect_within {op : Choice → World → Outcome Error α × World}
    (h : ∀ c w₁, w₁.toCore = w.toCore → Rel S w₁ (op c w₁).2) : Within (Rel S) (effect op) w := by
  unfold Within
  rw [effect_apply]
  have hd := draw_core w
  split
  · apply Rel.trans _ w.draw.2 _ (Rel.of_eq hd)
    exact Rel.move Move.stop (Steady.refl _)
  · apply Rel.trans _ w.draw.2 _ (Rel.of_eq hd)
    apply Rel.trans _ (op w.draw.1 w.draw.2).2 _ (h _ _ hd)
    exact authority_path _ _

/-- What an effect that was not cut off has done. -/
theorem effect_answer {op : Choice → World → Outcome Error α × World} {r : Outcome Error α} (hr : r ≠ .crash)
    (h : effect op w = (r, w')) :
    ∃ c w₁ w₂, w₁.toCore = w.toCore ∧ op c w₁ = (r, w₂) ∧ w' = w₂.authority c.writes := by
  rw [effect_apply] at h
  split at h
  · injection h with hcrash _
    exact absurd hcrash.symm hr
  · refine ⟨w.draw.1, w.draw.2, (op w.draw.1 w.draw.2).2, draw_core w, ?_, ?_⟩
    · have hf := congrArg Prod.fst h
      exact Prod.ext hf rfl
    · exact (congrArg Prod.snd h).symm

theorem effect_ret {op : Choice → World → Outcome Error α × World} {a : α}
    (h : effect op w = (.ret a, w')) :
    ∃ c w₁ w₂, w₁.toCore = w.toCore ∧ op c w₁ = (.ret a, w₂) ∧ w' = w₂.authority c.writes :=
  effect_answer (by simp) h

theorem effect_raise {op : Choice → World → Outcome Error α × World} {e : Error}
    (h : effect op w = (.raise e, w')) :
    ∃ c w₁ w₂, w₁.toCore = w.toCore ∧ op c w₁ = (.raise e, w₂) ∧ w' = w₂.authority c.writes :=
  effect_answer (by simp) h

/-- The process is cut off only where the environment says so. -/
theorem effect_crash {op : Choice → World → Outcome Error α × World}
    (hop : ∀ c w, (op c w).1 ≠ .crash) (h : effect op w = (.crash, w')) :
    ∃ c ∈ w.script, c.crash = true := by
  rw [effect_apply] at h
  split at h
  · rename_i hc
    unfold World.draw at hc
    split at hc
    · simp at hc
    · rename_i c cs hs
      exact ⟨c, by rw [hs]; exact List.mem_cons_self .., hc⟩
  · exact absurd (congrArg Prod.fst h) (hop _ _)

/-- An effect whose environment does nothing. -/
theorem effect_nil (op : Choice → World → Outcome Error α × World)
    (hs : w.script = []) : effect op w = op {} w := by
  have hd : w.draw = ({}, w) := by
    unfold World.draw
    rw [hs]
  rw [effect_apply, hd]
  rfl

/-- An operation that only adds an entry to the history. -/
theorem frame_of_log {w₁ w₂ : World} {es : List Entry} (hc : w₁.toCore = w.toCore)
    (h : w₂.toCore = { w₁.toCore with trace := es ++ w₁.trace }) (vs : List Bytes) :
    Frame es w (w₂.authority vs) := by
  have hcore : w₂.toCore = { w.toCore with trace := es ++ w.trace } := by
    rw [h, hc]
  have h₂ : Frame es w w₂ := by
    refine ⟨?_, ?_, ?_, ?_, ?_, [], by simp, ?_⟩ <;> rw [hcore]
    rfl
  exact h₂.comp (authority_frame vs w₂) rfl

/-! ### Effects that change nothing but the history -/

section Quiet
variable {op : Choice → World → Outcome Error α × World} (hq : ∀ c w, (op c w).2 = w)
include hq

theorem quiet_within (w : World) : Within (Rel S) (effect op) w := by
  apply effect_within
  intro c w₁ _
  rw [hq]
  exact Rel.refl w₁

theorem quiet_ret {a : α} (h : effect op w = (.ret a, w')) : Frame [] w w' := by
  obtain ⟨c, w₁, w₂, hc, hop, rfl⟩ := effect_ret h
  have h₂ : w₁ = w₂ := by
    rw [← hq c w₁, hop]
  exact frame_of_log hc (by rw [h₂]; rfl) _

theorem quiet_raise {e : Error} (h : effect op w = (.raise e, w')) : Frame [] w w' := by
  obtain ⟨c, w₁, w₂, hc, hop, rfl⟩ := effect_raise h
  have h₂ : w₁ = w₂ := by
    rw [← hq c w₁, hop]
  exact frame_of_log hc (by rw [h₂]; rfl) _

end Quiet

theorem readClock_within (w : World) : Within (Rel S) readClock w := by
  apply effect_within
  intro c w₁ _
  exact Rel.move (Move.note (.reading _) rfl) (Steady.cons rfl _)

theorem readClock_read {t : ℕ} (h : readClock w = (.ret t, w')) : Frame [.reading t] w w' := by
  obtain ⟨c, w₁, w₂, hc, hop, rfl⟩ := effect_ret h
  injection hop with hr h₂
  injection hr with hr
  exact frame_of_log hc (by rw [← h₂, hr]; rfl) _

/-- Only writes of the authority can follow the reading before the next effect. -/
theorem readClock_last {t : ℕ} (h : readClock w = (.ret t, w')) : lastReading w'.trace = some t := by
  obtain ⟨c, w₁, w₂, hc, hop, rfl⟩ := effect_ret h
  injection hop with hr h₂
  injection hr with hr
  have hw : ∀ vs w, lastReading (World.authority vs w).trace = lastReading w.trace := by
    intro vs
    induction vs with
    | nil => exact fun _ => rfl
    | cons v vs ih => exact fun w => ih (w.write v)
  rw [hw, ← h₂, ← hr]
  rfl

theorem readClock_ret {t : ℕ} (h : readClock w = (.ret t, w')) : Frame [] w w' := by
  obtain ⟨ha, hs, hf, hd, hj, ws, hw, ht⟩ := readClock_read h
  refine ⟨ha, hs, hf, hd, hj, ws ++ [.reading t], ?_, by simp [ht]⟩
  intro e he
  rcases List.mem_append.mp he with he | he
  · exact hw e he
  · rw [List.mem_singleton.mp he]
    rfl

/-- An operation that may raise and otherwise returns a value of the environment. -/
theorem answer_quiet (e : Choice → Error) (f : Choice → α) (c : Choice) (w : World) :
    (if c.fails then ((.raise (e c) : Outcome Error α), w) else (.ret (f c), w)).2 = w := by
  split
  · rfl
  · rfl

theorem randomId_within (w : World) : Within (Rel S) randomId w :=
  quiet_within (answer_quiet _ _) w

theorem randomId_ret {id : Bytes} (h : randomId w = (.ret id, w')) : Frame [] w w' :=
  quiet_ret (answer_quiet _ _) h

theorem validateConfiguration_within (config : Configuration) (w : World) :
    Within (Rel S) (platformValidateConfiguration config) w :=
  quiet_within (answer_quiet _ _) w

theorem validateConfiguration_ret {config : Configuration} {u : Unit}
    (h : platformValidateConfiguration config w = (.ret u, w')) : Frame [] w w' :=
  quiet_ret (answer_quiet _ _) h

theorem networkLinks_within (w : World) : Within (Rel S) platformNetworkLinks w :=
  quiet_within (answer_quiet _ _) w

theorem networkLinks_ret {links : List NetworkStatus}
    (h : platformNetworkLinks w = (.ret links, w')) : Frame [] w w' :=
  quiet_ret (answer_quiet _ _) h

theorem networkLinks_raise {e : Error}
    (h : platformNetworkLinks w = (.raise e, w')) : Frame [] w w' :=
  quiet_raise (answer_quiet _ _) h

theorem storageStatus_within (path : Bytes) (w : World) :
    Within (Rel S) (storageStatus path) w := by
  apply effect_within
  intro c w₁ _
  split
  · exact Rel.refl w₁
  · split
    · exact Rel.refl w₁
    · exact Rel.refl w₁
    · exact Rel.move (Move.note (.status _ _) rfl) (Steady.cons rfl _)

theorem storageStatus_ret {path : Bytes} {r : Bool × Bool}
    (h : storageStatus path w = (.ret r, w')) : Frame [.status r.1 r.2] w w' := by
  obtain ⟨c, w₁, w₂, hc, hop, rfl⟩ := effect_ret h
  split at hop
  · simp at hop
  · split at hop
    · simp at hop
    · simp at hop
    · injection hop with hr h₂
      injection hr with hr
      subst hr
      exact frame_of_log hc (by rw [← h₂]; rfl) _

theorem fileHash_within (w : World) : Within (Rel S) (fileHash S) w := by
  apply effect_within
  intro c w₁ _
  split
  · exact Rel.refl w₁
  · split
    · exact Rel.refl w₁
    · rename_i h hd
      exact Rel.move (Move.hash h hd) (Steady.cons rfl _)

theorem fileHash_ret {v : Bytes} (h : fileHash S w = (.ret v, w')) : Frame [.hash v] w w' := by
  obtain ⟨c, w₁, w₂, hc, hop, rfl⟩ := effect_ret h
  split at hop
  · simp at hop
  · split at hop
    · simp at hop
    · injection hop with hr h₂
      injection hr with hr
      subst hr
      exact frame_of_log hc (by rw [← h₂]; rfl) _

theorem discover_within (ha : w.alive = true) (hi : w.state.initialized = false) :
    Within (Rel S) platformDiscover w := by
  apply effect_within
  intro c w₁ hc
  split
  · exact Rel.refl w₁
  · exact Rel.move (Move.discovered c.config (by rw [hc]; exact ha) (by rw [hc]; exact hi))
      (Steady.cons rfl _)

theorem discover_ret {config : Configuration} (h : platformDiscover w = (.ret config, w')) :
    Frame [.discovered config] w w' := by
  obtain ⟨c, w₁, w₂, hc, hop, rfl⟩ := effect_ret h
  split at hop
  · simp at hop
  · injection hop with hr h₂
    injection hr with hr
    subst hr
    exact frame_of_log hc (by rw [← h₂]; rfl) _

/-! ### Platform calls -/

theorem platformCall_within {entry : Bool → Entry}
    (h : ∀ ok, Move S w.toCore { w.toCore with trace := entry ok :: w.trace })
    (hp : ∀ ok, (entry ok).plain = true) : Within (Rel S) (platformCall entry) w := by
  apply effect_within
  intro c w₁ hc
  have hm : ∀ ok, Move S w₁.toCore { w₁.toCore with trace := entry ok :: w₁.trace } := by
    rw [hc]
    exact h
  split
  · exact Rel.move (hm false) (Steady.cons (hp false) _)
  · exact Rel.move (hm true) (Steady.cons (hp true) _)

theorem platformCall_ret {entry : Bool → Entry} {u : Unit}
    (h : platformCall entry w = (.ret u, w')) : Frame [entry true] w w' := by
  obtain ⟨c, w₁, w₂, hc, hop, rfl⟩ := effect_ret h
  split at hop
  · simp at hop
  · injection hop with _ h₂
    exact frame_of_log hc (by rw [← h₂]; rfl) _

theorem platformCall_raise {entry : Bool → Entry} {e : Error}
    (h : platformCall entry w = (.raise e, w')) : Frame [entry false] w w' := by
  obtain ⟨c, w₁, w₂, hc, hop, rfl⟩ := effect_raise h
  split at hop
  · injection hop with _ h₂
    exact frame_of_log hc (by rw [← h₂]; rfl) _
  · simp at hop

theorem network_within {n : Network} (bootstrap : Bool) (ha : w.alive = true)
    (hg : NetworkGuard w.toCore n) : Within (Rel S) (platformNetwork n bootstrap) w :=
  platformCall_within (fun ok => Move.network n bootstrap ok ha hg) fun ok => by cases ok <;> rfl

theorem network_ret {n : Network} {bootstrap : Bool} {u : Unit}
    (h : platformNetwork n bootstrap w = (.ret u, w')) : Frame [.network n bootstrap] w w' :=
  platformCall_ret h

theorem network_raise {n : Network} {bootstrap : Bool} {e : Error}
    (h : platformNetwork n bootstrap w = (.raise e, w')) :
    Frame [.networkFailed n bootstrap] w w' :=
  platformCall_raise h

theorem plain_of_inert {e : Entry} (h : e.inert = true) : e.plain = true := by
  cases e <;> first | rfl | simp [Entry.inert] at h

theorem platformCall_inert {entry : Bool → Entry} (h : ∀ ok, (entry ok).inert = true) (w : World) :
    Within (Rel S) (platformCall entry) w :=
  platformCall_within (fun ok => Move.note (entry ok) (h ok)) fun ok => plain_of_inert (h ok)

theorem power_within {action : PowerAction} (ha : w.alive = true) (hf : w.failed = false)
    (hj : w.journal = some w.state) (hs : w.state.job.state = .dispatched)
    (hh : handoff w.trace = true) : Within (Rel S) (platformPower action) w := by
  apply effect_within
  intro c w₁ hc
  have hm : Move S w₁.toCore
      { w₁.toCore with trace := .power action w₁.state.job (w₁.journal.map (·.job)) :: w₁.trace } := by
    rw [hc]
    exact Move.power action ha hf hj hs hh
  dsimp only
  split
  · exact Rel.move hm (Steady.cons rfl _)
  · exact Rel.move hm (Steady.cons rfl _)

theorem power_ret {action : PowerAction} {u : Unit}
    (h : platformPower action w = (.ret u, w')) :
    Frame [.power action w.state.job (w.journal.map (·.job))] w w' := by
  obtain ⟨c, w₁, w₂, hc, hop, rfl⟩ := effect_ret h
  have hs : w₁.state = w.state := congrArg Core.state hc
  have hj : w₁.journal = w.journal := congrArg Core.journal hc
  dsimp only at hop
  split at hop
  · simp at hop
  · injection hop with _ h₂
    exact frame_of_log hc (by rw [← h₂, ← hs, ← hj]; rfl) _

theorem power_raise {action : PowerAction} {e : Error}
    (h : platformPower action w = (.raise e, w')) :
    Frame [.power action w.state.job (w.journal.map (·.job))] w w' := by
  obtain ⟨c, w₁, w₂, hc, hop, rfl⟩ := effect_raise h
  have hs : w₁.state = w.state := congrArg Core.state hc
  have hj : w₁.journal = w.journal := congrArg Core.journal hc
  dsimp only at hop
  split at hop
  · injection hop with _ h₂
    exact frame_of_log hc (by rw [← h₂, ← hs, ← hj]; rfl) _
  · simp at hop

end Monutchee.System
