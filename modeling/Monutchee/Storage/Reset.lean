import Monutchee.System.Intent
import Monutchee.Storage.Prepare

/-!
# Factory reset across the two boot programs

mnc-storage and the system manager share two files: the journal on the state partition,
which carries the intent, and `status.json`, which lasts for one boot and carries the word
that storage was prepared. prepare never changes the journal, so the intent survives it at
every point; the manager clears it only where `Intent` says, and there it has read the
record that only a prepare of the same boot can have written.
-/

namespace Monutchee.Storage
open Lib Lib.Act Relation
open Monutchee.System (Bytes ascii State Site World inside StatusFile Entry Known journalIntent
  ClearedAfter known_path step_path)

variable {S : Site} {p : Policy} {d d' : Device} {α β : Type}

/-! ### What every step of prepare keeps -/

/-- The record of this boot is true. -/
def Recorded (p : Policy) (d : Device) : Prop :=
  d.status.prepared = true → d.formatted = true ∧ d.erased = p.resetPaths

structure Safe (p : Policy) (d d' : Device) : Prop where
  durable : d'.durable = d.durable
  partition : d'.partition = d.partition
  alive : d'.world.alive = d.world.alive
  recorded : Recorded p d → Recorded p d'

theorem Safe.refl (d : Device) : Safe p d d := ⟨rfl, rfl, rfl, fun h => h⟩

theorem Safe.trans (a b c : Device) (h : Safe p a b) (h' : Safe p b c) : Safe p a c :=
  ⟨h'.durable.trans h.durable, h'.partition.trans h.partition, h'.alive.trans h.alive,
    fun hr => h'.recorded (h.recorded hr)⟩

/-- How far a boot has come. -/
structure Stage (persistent formatted : Bool) (erased : List Bytes) (d : Device) : Prop where
  persistent : d.persistent = persistent
  status : d.status = .missing
  formatted : formatted = true → d.formatted = true
  erased : d.erased = erased

variable {b f : Bool} {es : List Bytes}

abbrev Spec (p : Policy) (m : Prog α) (d : Device) (Q : α → Device → Prop) : Prop :=
  Ensures (Safe p) m d Q

theorem Spec.seq {m : Prog α} {k : α → Prog β} {P : α → Device → Prop} {Q : β → Device → Prop}
    (hm : Spec p m d P) (hk : ∀ a d', P a d' → Spec p (k a) d' Q) : Spec p (m >>= k) d Q :=
  Ensures.bind Safe.trans hm hk

theorem Spec.done {a : α} {Q : α → Device → Prop} (h : Q a d) : Spec p (pure a : Prog α) d Q :=
  Ensures.pure Safe.refl h

theorem Spec.check {c : Bool} {e : Bytes} {Q : Unit → Device → Prop} (h : c = true → Q () d) :
    Spec p (require c e : Prog Unit) d Q := Ensures.require Safe.refl h

/-- An answer is taken from the script and nothing else changes. -/
theorem draw_safe (d : Device) : Safe p d d.draw.2 := ⟨rfl, rfl, rfl, fun hr => hr⟩

theorem Stage.draw (h : Stage b f es d) : Stage b f es d.draw.2 := ⟨h.persistent, h.status, h.formatted, h.erased⟩

theorem effect_apply (op : Answer → Device → Outcome Bytes α × Device) (d : Device) :
    effect op d = if d.draw.1.crash then (.crash, d.draw.2) else op d.draw.1 d.draw.2 := rfl

theorem effect_spec {op : Answer → Device → Outcome Bytes α × Device} {Q : α → Device → Prop}
    (h : Stage b f es d)
    (hw : ∀ a d', Stage b f es d' → Safe p d' (op a d').2)
    (hr : ∀ a d' r d'', Stage b f es d' → op a d' = (.ret r, d'') → Q r d'') :
    Spec p (effect op) d Q := by
  refine ⟨?_, ?_⟩
  · unfold Within
    rw [effect_apply]
    split
    · exact draw_safe d
    · exact Safe.trans _ _ _ (draw_safe d) (hw _ _ h.draw)
  · intro r d'' hop
    rw [effect_apply] at hop
    split at hop
    · simp at hop
    · exact hr _ _ r d'' h.draw hop

/-- An operation that fails or does its work. -/
theorem operation_spec {failed done : Answer → Device → Device} {value : Answer → Device → α} {Q : α → Device → Prop}
    (h : Stage b f es d) (hfailed : ∀ a d', Safe p d' (failed a d'))
    (hdone : ∀ a d', Stage b f es d' → Safe p d' (done a d') ∧ Q (value a d') (done a d')) :
    Spec p (effect fun a d => if a.fails then (.raise a.error, failed a d) else (.ret (value a d), done a d)) d Q := by
  apply effect_spec h
  · intro a d' h'
    split
    · exact hfailed a d'
    · exact (hdone a d' h').1
  · intro a d' r d'' h' hop
    split at hop
    · simp at hop
    · injection hop with hr hd
      injection hr with hr
      rw [← hr, ← hd]
      exact (hdone a d' h').2

theorem ask_spec (g : Answer → α) (h : Stage b f es d) :
    Spec p (ask g) d fun _ d' => Stage b f es d' := by
  apply operation_spec h
  · intro _ d'
    exact Safe.refl d'
  · intro _ d' h'
    exact ⟨Safe.refl d', h'⟩

theorem command_spec (h : Stage b f es d) : Spec p command d fun _ d' => Stage b f es d' :=
  ask_spec _ h

theorem ask_safe (g : Answer → α) (d : Device) : Within (Safe p) (ask g) d := by
  unfold Within ask
  rw [effect_apply]
  split
  · exact draw_safe d
  · split
    · exact draw_safe d
    · exact draw_safe d

theorem discover_spec (tries : ℕ) (devices : List (Role × Bytes)) (h : Stage b f es d) :
    Spec p (discover p tries devices) d fun _ d' => Stage b f es d' := by
  induction tries generalizing devices d with
  | zero => exact Spec.done h
  | succ tries ih =>
    apply Spec.seq (ask_spec _ h)
    intro nodes d₁ h₁
    apply Spec.seq (P := fun _ d' => Stage b f es d') (Ensures.lift Safe.refl fun _ _ => h₁)
    intro found d₂ h₂
    split
    · exact Spec.done h₂
    · apply Spec.seq (command_spec h₂)
      intro _ d₃ h₃
      exact ih found h₃

/-- Mounting the state role brings the journal into view and changes nothing in it. -/
theorem mount_spec (role : Role) (persistent : Bool) (h : Stage b f es d)
    (hs : role = .state → b = false) :
    Spec p (mount role persistent) d fun _ d' =>
      Stage (if role = .state then persistent else b) f es d' := by
  apply effect_spec h
  · intro a d' h'
    split
    · exact Safe.refl d'
    · split
      · rename_i hrole
        have hp : d'.persistent = false := h'.persistent.trans (hs hrole)
        refine ⟨?_, rfl, rfl, fun hr => hr⟩
        unfold Device.durable
        rw [hp]
        cases persistent with
        | true => rfl
        | false => rfl
      · exact Safe.refl d'
  · intro a d' r d'' h' hop
    split at hop
    · simp at hop
    · split at hop
      · rename_i hrole
        injection hop with _ hd
        rw [← hd, if_pos hrole]
        exact ⟨rfl, h'.status, h'.formatted, h'.erased⟩
      · rename_i hrole
        injection hop with _ hd
        rw [← hd, if_neg hrole]
        exact h'

/-- An effect that raises without touching the device. -/
theorem effect_raised {op : Answer → Device → Outcome Bytes α × Device} {e : Bytes}
    (h : Stage b f es d) (hop : ∀ a d' e d'', op a d' = (.raise e, d'') → d'' = d')
    (hr : effect op d = (.raise e, d')) : Stage b f es d' := by
  rw [effect_apply] at hr
  split at hr
  · simp at hr
  · rw [hop _ _ _ _ hr]
    exact h.draw

theorem ask_raised {g : Answer → α} {e : Bytes} (h : Stage b f es d)
    (hr : ask g d = (.raise e, d')) : Stage b f es d' := by
  apply effect_raised h ?_ hr
  intro a d' e d'' hop
  split at hop
  · injection hop with _ hd
    exact hd.symm
  · simp at hop

theorem mount_raised {role : Role} {persistent : Bool} {e : Bytes} (h : Stage b f es d)
    (hr : mount role persistent d = (.raise e, d')) : Stage b f es d' := by
  apply effect_raised h ?_ hr
  intro a d' e d'' hop
  split at hop
  · injection hop with _ hd
    exact hd.symm
  · split at hop
    · simp at hop
    · simp at hop

theorem filesystemCheck_spec (h : Stage b f es d) :
    Spec p filesystemCheck d fun _ d' => Stage b f es d' := by
  apply Spec.seq (ask_spec _ h)
  intro code d₁ h₁
  exact Spec.check fun _ => h₁

theorem filesystemCheck_raised {e : Bytes} (h : Stage b f es d)
    (hr : filesystemCheck d = (.raise e, d')) : Stage b f es d' := by
  obtain ⟨code, d₁, h₁, h₂⟩ | h₁ := bind_raise hr
  · have hd₁ := (ask_spec (p := ⟨[], fun _ => [], [], []⟩) _ h).post _ _ h₁
    unfold require at h₂
    split at h₂
    · cases h₂
    · injection h₂ with _ hd
      rw [← hd]
      exact hd₁
  · exact ask_raised h h₁

theorem checkRole_spec (role : Role) (h : Stage b f es d) :
    Spec p (checkRole role) d fun _ d' => Stage b f es d' := by
  unfold checkRole
  split
  · exact Spec.done h
  · exact filesystemCheck_spec h

/-- A partition that could not be mounted leaves the boot where it was. -/
theorem mountPartition_raised {role : Role} {device e : Bytes} (h : Stage b f es d)
    (hr : mountPartition role device d = (.raise e, d')) : Stage b f es d' := by
  obtain ⟨_, d₁, h₁, h₂⟩ | h₁ := bind_raise hr
  · have hd₁ := (checkRole_spec (p := ⟨[], fun _ => [], [], []⟩) role h).post _ _ h₁
    obtain ⟨_, d₂, _, h₃⟩ | h₃ := bind_raise h₂
    · cases h₃
    · exact mount_raised hd₁ h₃
  · unfold checkRole at h₁
    split at h₁
    · cases h₁
    · exact filesystemCheck_raised h h₁

theorem tryMount_spec (maintenance : Bool) (devices : List (Role × Bytes)) (role : Role)
    (h : Stage b f es d) (hs : role = .state → b = false) :
    Spec p (tryMount maintenance devices role) d fun r d' =>
      Stage (if role = .state then r.persistent else b) f es d' := by
  have hmissing : Stage (if role = .state then false else b) f es d := by
    split
    · rename_i hrole
      rw [← hs hrole]
      exact h
    · exact h
  unfold tryMount
  split
  · apply Ensures.attempt Safe.trans
    · apply Spec.seq (checkRole_spec role h)
      intro _ d₁ h₁
      apply Spec.seq (mount_spec role true h₁ hs)
      intro _ d₂ h₂
      exact Spec.done h₂
    · intro e d₁ hr
      apply Spec.done
      have h₁ := mountPartition_raised h hr
      split
      · rename_i hrole
        have hb := hs hrole
        subst hb
        exact h₁
      · exact h₁
  · exact Spec.done hmissing

/-- After its round the state role is mounted, or a tmpfs stands in its place. -/
theorem mountRole_spec (maintenance : Bool) (devices : List (Role × Bytes)) (role : Role)
    (h : Stage b f es d) (hs : role = .state → b = false) :
    Spec p (mountRole maintenance devices role) d fun r d' =>
      Stage (if role = .state then r.persistent else b) f es d' := by
  apply Spec.seq (tryMount_spec maintenance devices role h hs)
  intro r d₁ h₁
  apply Spec.seq (P := fun _ d' => Stage (if role = .state then r.persistent else b) f es d')
  · unfold settleRole
    split
    · split
      · exact command_spec h₁
      · exact Spec.done h₁
    · rename_i hp
      have hp' : r.persistent = false := by simpa using hp
      have hrole : role = .state → (if role = .state then r.persistent else b) = false := by
        intro hrole
        rw [if_pos hrole]
        exact hp'
      apply Ensures.mono (mount_spec role false h₁ hrole)
      intro _ d₂ h₂
      split
      · rename_i hrole
        rw [if_pos hrole] at h₂
        rw [hp']
        exact h₂
      · rename_i hrole
        rw [if_neg hrole, if_neg hrole] at h₂
        exact h₂
  · intro _ d₂ h₂
    exact Spec.done h₂

theorem enterRole_spec (h : Stage b f es d) : Spec p enterRole d fun _ d' => Stage b f es d' := by
  apply Spec.seq (command_spec h)
  intro _ d₁ h₁
  exact command_spec h₁

/-- Until the status is written no record of this boot exists. -/
theorem Stage.recorded (h : Stage b f es d) : Recorded p d := by
  intro hprep
  rw [h.status] at hprep
  cases hprep

theorem formatData_spec (h : Stage b f es d) :
    Spec p formatData d fun _ d' => Stage b true es d' := by
  apply operation_spec h
  · intro _ d'
    exact Safe.refl d'
  · intro _ d' h'
    have hformatted : Stage b true es { d' with formatted := true } :=
      ⟨h'.persistent, h'.status, fun _ => rfl, h'.erased⟩
    exact ⟨⟨rfl, rfl, rfl, fun _ => hformatted.recorded⟩, hformatted⟩

theorem eraseData_spec (devices : List (Role × Bytes)) (statePersistent : Bool)
    (h : Stage b f es d) :
    Spec p (eraseData devices statePersistent) d fun _ d' => Stage b true es d' := by
  unfold eraseData
  split
  · apply Spec.seq (P := fun _ d' => Stage b f es d') (Spec.check fun _ => h)
    intro _ d₁ h₁
    apply Spec.seq (ask_spec _ h₁)
    intro nodes d₂ h₂
    apply Spec.seq (P := fun _ d' => Stage b f es d') (Spec.check fun _ => h₂)
    intro _ d₃ h₃
    apply Spec.seq (ask_spec _ h₃)
    intro holders d₄ h₄
    apply Spec.seq (P := fun _ d' => Stage b f es d') (Spec.check fun _ => h₄)
    intro _ d₅ h₅
    exact formatData_spec h₅
  · exact Ensures.raise Safe.refl

/-- A reset that goes on has formatted the data partition. -/
theorem resetData_spec (devices : List (Role × Bytes)) (statePersistent : Bool)
    (h : Stage b false es d) :
    Spec p (resetData devices statePersistent) d fun r d' => Stage b r es d' := by
  apply Spec.seq (P := fun _ d' => Stage b false es d')
  · apply operation_spec h
    · intro _ d'
      exact Safe.refl d'
    · intro _ d' h'
      exact ⟨Safe.refl d', h'⟩
  · intro r d₁ h₁
    split
    · apply Spec.seq (eraseData_spec devices statePersistent h₁)
      intro _ d₂ h₂
      exact Spec.done h₂
    · exact Spec.done h₁

/-! ### The paths that prepare removes -/

theorem durable_remove {q : Bytes} (hq : inside q p.journalPath = false) (d : Device) :
    (Device.remove S p d q).durable = d.durable := by
  unfold Device.durable Device.remove
  rw [hq]
  rfl

theorem safe_gone {q : Bytes} (hq : inside q p.journalPath = false) (gone : List Bytes)
    (hg : ∀ r ∈ gone, inside q r = true) (d : Device) :
    Safe p d (gone.foldl (Device.remove S p) d) := by
  induction gone generalizing d with
  | nil => exact Safe.refl d
  | cons r rs ih =>
    have hqr : inside q r = true := hg r (List.mem_cons_self ..)
    have hr : inside r p.journalPath = false := by
      by_contra hc
      have hqj := System.inside_trans hqr (by simpa using hc)
      rw [hq] at hqj
      simp at hqj
    have h₁ : Safe p d (Device.remove S p d r) := ⟨durable_remove hr d, rfl, rfl, fun h => h⟩
    exact Safe.trans _ _ _ h₁ (ih (fun x hx => hg x (List.mem_cons_of_mem _ hx)) _)

theorem removeTree_spec {q : Bytes} (hq : inside q p.journalPath = false) (h : Stage b f es d) :
    Spec p (removeTree S p q) d fun _ d' => Stage b f (es ++ [q]) d' := by
  apply operation_spec h
  · intro _ d'
    exact safe_gone hq _ (fun r hr => (List.mem_filter.mp hr).2) d'
  · intro _ d' h'
    have herased : Stage b f (es ++ [q]) { Device.remove S p d' q with erased := d'.erased ++ [q] } :=
      ⟨h'.persistent, h'.status, h'.formatted, by rw [← h'.erased]⟩
    exact ⟨⟨durable_remove hq d', rfl, rfl, fun _ => herased.recorded⟩, herased⟩

theorem removeSettings_spec {q : Bytes} (hq : inside q p.journalPath = false)
    (h : Stage b f es d) :
    Spec p (removeSettings S p q) d fun _ d' => Stage b f (es ++ [q]) d' := by
  apply Spec.seq (command_spec h)
  intro _ d₁ h₁
  apply Spec.seq (removeTree_spec hq h₁)
  intro _ d₂ h₂
  exact command_spec h₂

section Prepare
variable (hp : ∀ q ∈ p.resetPaths, inside q p.journalPath = false)
include hp

theorem prepareReset_spec (resetting dataPersistent : Bool) (h : Stage b resetting [] d) :
    Spec p (prepareReset S p resetting dataPersistent) d fun _ d' =>
      Stage b resetting (if resetting then p.resetPaths else []) d' := by
  unfold prepareReset
  split
  · apply Spec.seq (P := fun _ d' => Stage b resetting [] d') (Spec.check fun _ => h)
    intro _ d₁ h₁
    apply Ensures.each_mem Safe.refl Safe.trans (fun done d' => Stage b resetting done d') ?_ [] h₁
    intro done q d₂ hq h₂
    exact removeSettings_spec (hp q hq) h₂
  · exact Spec.done h

omit hp in
theorem writeStatus_spec (factoryReset resetPrepared : Bool)
    (h : Stage b resetPrepared (if resetPrepared then p.resetPaths else []) d) :
    Spec p (writeStatus factoryReset resetPrepared) d fun _ _ => True := by
  apply effect_spec h
  · intro a d' h'
    split
    · exact ⟨rfl, rfl, rfl, fun _ hprep => by cases hprep⟩
    · refine ⟨rfl, rfl, rfl, ?_⟩
      intro _ hprep
      have hr : resetPrepared = true := hprep
      have he := h'.erased
      rw [if_pos hr] at he
      exact ⟨h'.formatted hr, he⟩
  · exact fun _ _ _ _ _ _ => trivial

/-- However far prepare comes, the journal is what it was and the record is true. -/
theorem prepare_spec (h : Stage false false [] d) :
    Spec p (prepare S p) d fun _ _ => True := by
  apply Spec.seq (command_spec h)
  intro _ d₁ h₁
  apply Spec.seq (ask_spec _ h₁)
  intro maintenance d₂ h₂
  apply Spec.seq (P := fun _ d' => Stage false false [] d')
  · unfold findDevices
    split
    · exact Spec.done h₂
    · exact discover_spec 10 [] h₂
  intro devices d₃ h₃
  apply Spec.seq (enterRole_spec h₃)
  intro _ d₄ h₄
  apply Spec.seq (mountRole_spec maintenance devices .factory h₄ (by simp))
  intro _ d₅ h₅
  apply Spec.seq (enterRole_spec h₅)
  intro _ d₆ h₆
  apply Spec.seq (mountRole_spec maintenance devices .state h₆ (fun _ => rfl))
  intro state d₇ h₇
  apply Spec.seq (enterRole_spec h₇)
  intro _ d₈ h₈
  apply Spec.seq (resetData_spec devices state.persistent h₈)
  intro resetting d₉ h₉
  apply Spec.seq (mountRole_spec maintenance devices .data h₉ (by simp))
  intro data d₁₀ h₁₀
  apply Spec.seq (prepareReset_spec hp resetting data.persistent h₁₀)
  intro _ d₁₁ h₁₁
  apply Spec.seq (command_spec h₁₁)
  intro _ d₁₂ h₁₂
  apply Spec.seq (writeStatus_spec _ resetting h₁₂)
  intro _ d₁₃ _
  exact ⟨ask_safe _ d₁₃, fun _ _ _ => trivial⟩

/-- A boot, however it ends, leaves the journal as the power cut found it. -/
theorem boot_safe (answers : List Answer) (d : Device) :
    (boot S p answers d).durable = d.durable ∧ (boot S p answers d).world.alive = false ∧
      Recorded p (boot S p answers d) := by
  have hs : Stage false false [] (powered answers d) := ⟨rfl, rfl, by simp, rfl⟩
  have hw := (prepare_spec (S := S) hp hs).within
  unfold Within at hw
  have hrec : Recorded p (powered answers d) := by
    intro h
    cases h
  unfold boot
  rcases h : prepare S p (powered answers d) with ⟨o, d'⟩
  rw [h] at hw
  cases o with
  | ret r => exact ⟨hw.durable, hw.alive, hw.recorded hrec⟩
  | raise e => exact ⟨hw.durable, hw.alive, hw.recorded hrec⟩
  | crash => exact ⟨hw.durable, hw.alive, hw.recorded hrec⟩

/-! ### Runs of the device -/

structure Invariant (p : Policy) (d : Device) : Prop where
  known : Known d.world.toCore
  recorded : Recorded p d

/-- What the manager sees when an event reaches it. -/
def Device.seen (d : Device) : World := { d.world with status := d.status }

omit hp in
theorem step_manager {e : Event} {e' : System.Event} (he : e.manager = some e') (d : Device) :
    step S p d e = if d.ready then { d with world := System.step S d.seen e' } else d := by
  cases e with
  | boot answers => cases he
  | restart script => injection he with he; subst he; rfl
  | call op script => injection he with he; subst he; rfl
  | crash => injection he with he; subst he; rfl
  | write content => injection he with he; subst he; rfl

theorem invariant_step (e : Event) (h : Invariant p d) : Invariant p (step S p d e) := by
  cases hm : e.manager with
  | none =>
    cases e with
    | boot answers =>
      obtain ⟨_, ha, hr⟩ := boot_safe (S := S) hp answers d
      refine ⟨?_, hr⟩
      intro halive
      change (boot S p answers d).world.alive = true at halive
      rw [ha] at halive
      cases halive
    | _ => cases hm
  | some e' =>
    rw [step_manager hm]
    split
    · exact ⟨known_path (step_path S d.seen e') h.known, h.recorded⟩
    · exact h

theorem invariant_run (es : List Event) (h : Invariant p d) : Invariant p (run S p d es) := by
  induction es generalizing d with
  | nil => exact h
  | cons e es ih => exact ih (invariant_step hp e h)

end Prepare

/-! ### The protocol -/

/-- The intent left the journal in this event: it was a bootstrap of the manager, in a boot
whose prepare had formatted the data partition, removed the four paths and recorded it, and
that bootstrap had removed every reset path and applied the factory policies before. -/
structure Handover (S : Site) (p : Policy) (d : Device) (e : Event) : Prop where
  bootstrap : ∃ script, e = .call .bootstrap script
  ready : d.ready = true
  persistent : d.persistent = true
  formatted : d.formatted = true
  erased : d.erased = p.resetPaths
  recorded : d.status.prepared = true
  completed : ∃ latched newer entry body, ClearedAfter S (.call .bootstrap latched :: d.world.trace)
    (step S p d e).world.trace newer entry body

theorem step_journal (S : Site) (w : World) {e : System.Event} (he : ∀ op script, e ≠ .call op script) :
    (System.step S w e).journal = w.journal := by
  cases e with
  | restart script =>
    have h : Within System.SameJournal (System.Backend.construct S) { w with alive := false, script := script } := by
      apply System.effect_journal
      intro c w₁ _
      split
      · rfl
      · rfl
    exact h
  | call op script => exact absurd rfl (he op script)
  | crash => rfl
  | write content => rfl
  | status file => rfl

theorem handover_of_cleared (hs : S.profile.storageStatusFile ≠ [])
    (hj : ∀ q ∈ S.profile.resetPaths, inside q S.journalPath = false)
    (hp : ∀ q ∈ p.resetPaths, inside q p.journalPath = false) (h : Invariant p d) {e : Event}
    (hi : d.intent = true) (hc : (step S p d e).intent = false) : Handover S p d e := by
  have hsame : (step S p d e).durable ≠ d.durable := by
    intro heq
    unfold Device.intent at hi hc
    rw [heq, hi] at hc
    cases hc
  cases hm : e.manager with
  | none =>
    cases e with
    | boot answers => exact absurd (boot_safe (S := S) hp answers d).1 hsame
    | _ => cases hm
  | some e' =>
    have hstep := step_manager (S := S) (p := p) hm d
    have hready : d.ready = true := by
      by_contra hr
      rw [if_neg hr] at hstep
      exact hsame (by rw [hstep])
    rw [if_pos hready] at hstep
    have hpers : d.persistent = true := by
      by_contra hr
      apply hsame
      rw [hstep]
      unfold Device.durable
      rw [if_neg hr, if_neg hr]
    have hjournal : (System.step S d.seen e').journal ≠ d.world.journal := by
      intro heq
      apply hsame
      rw [hstep]
      unfold Device.durable
      rw [if_pos hpers, if_pos hpers]
      exact heq
    have hcall : ∃ op script, e' = .call op script := by
      by_contra hno
      exact hjournal (step_journal S d.seen fun op script he => hno ⟨op, script, he⟩)
    obtain ⟨op, script, rfl⟩ := hcall
    have halive : d.world.alive = true := by
      by_contra ha
      apply hjournal
      change (if d.world.alive = true then (System.perform S op script d.seen).2 else d.seen).journal = _
      rw [if_neg ha]
      rfl
    have hworld : System.step S d.seen (.call op script) = (System.perform S op script d.seen).2 :=
      if_pos halive
    rw [hworld] at hstep hjournal
    have hin : journalIntent d.seen.toCore = true := by
      unfold Device.intent Device.durable at hi
      rw [if_pos hpers] at hi
      exact hi
    have hout : ¬journalIntent (System.perform S op script d.seen).2.toCore = true := by
      intro h'
      unfold Device.intent Device.durable at hc
      rw [hstep] at hc
      dsimp only at hc
      rw [if_pos hpers] at hc
      unfold journalIntent at h'
      rw [h'] at hc
      cases hc
    obtain ⟨hf, rfl, newer, entry, body, hcl⟩ :=
      (System.intent_perform hj op script (w := d.seen) halive h.known hin).resolve_left hout
    have hprep : d.status.prepared = true := by
      by_contra hn
      exact hjournal (System.bootstrap_unprepared (w := d.seen) script hs (h.known halive hf hin)
        (Bool.eq_false_iff.mpr hn))
    obtain ⟨hformat, herased⟩ := h.recorded hprep
    refine ⟨⟨script, ?_⟩, hready, hpers, hformat, herased, hprep, d.world.failed, newer, entry, body, ?_⟩
    · cases e with
      | call op script' =>
        injection hm with hm
        injection hm with ho hsc
        rw [ho, hsc]
      | boot answers => cases hm
      | restart script' => cases hm
      | crash => cases hm
      | write content => cases hm
    · rw [hstep]
      exact hcl

/-- The reset intent leaves the journal on the state partition only through a handover, from
any journal and over any run; while it is there and the partition is mounted, apply,
beginNetwork, power and resetDevice raise and leave the journal alone. -/
theorem reset_protocol (S : Site) (p : Policy) (hs : S.profile.storageStatusFile ≠ [])
    (hj : ∀ q ∈ S.profile.resetPaths, inside q S.journalPath = false)
    (hp : ∀ q ∈ p.resetPaths, inside q p.journalPath = false) (j : Option State) (es : List Event) :
    (∀ e, (run S p { partition := j } es).intent = true →
      (step S p (run S p { partition := j } es) e).intent = false →
      Handover S p (run S p { partition := j } es) e) ∧
    (∀ op script, (run S p { partition := j } es).intent = true →
      (run S p { partition := j } es).persistent = true →
      (run S p { partition := j } es).world.alive = true → op.requests = true →
      ∃ e, (System.perform S op script (run S p { partition := j } es).seen).1 = .raise e ∧
        (System.perform S op script (run S p { partition := j } es).seen).2.journal =
          (run S p { partition := j } es).durable) := by
  have hstart : Invariant p { partition := j } := by
    refine ⟨?_, ?_⟩
    · intro h
      cases h
    · intro h
      cases h
  have hI := invariant_run (S := S) hp es hstart
  refine ⟨?_, ?_⟩
  · intro e hi hc
    exact handover_of_cleared hs hj hp hI hi hc
  · intro op script hi hpers ha ho
    have hd : (run S p { partition := j } es).durable = (run S p { partition := j } es).world.journal :=
      if_pos hpers
    have hin : journalIntent (run S p { partition := j } es).seen.toCore = true := by
      unfold Device.intent at hi
      rw [hd] at hi
      exact hi
    obtain ⟨e, he, hjournal⟩ := System.perform_refused (S := S)
      (w := (run S p { partition := j } es).seen) script ho ha hI.known hin
    exact ⟨e, he, hjournal.trans hd.symm⟩

/-! ### Concrete devices -/

namespace Fixture

/-- The product of the manager's tests with the storage policy of test_storage.py. -/
def site : Site :=
  { System.Fixture.site with profile := { System.Fixture.site.profile with
      stateDirectory := ascii "/state/mnc-system", activeSettings := ascii "/state/msa/settings/active.json"
      storageStatusFile := ascii "/run/mnc/storage/status.json", resetPaths := [ascii "/data/msa"] } }

def policy : Policy where
  disk := ascii "/dev/sda"
  label := fun role => ascii "msa-" ++ role.text
  settings := ascii "msa/settings"
  resetJournal := ascii "mnc-system/state.json"

def node (role : Role) (name : Bytes) : Node where
  name := name
  type := ascii "part"
  fstype := ascii "ext4"
  label := policy.label role
  pkname := policy.disk

def disk : List Node :=
  [node .factory (ascii "/dev/sda1"), node .state (ascii "/dev/sda2"), node .data (ascii "/dev/sda3")]

/-- A boot in which every command succeeds and every listing shows the disk. -/
def booted : Event := .boot (List.replicate 16 { nodes := disk })

/-- A boot with mnc.storage=maintenance on the kernel command line. -/
def maintenance : Event := .boot [{}, { maintenance := true }]

def started : List Event := [.restart [], .call .start [{ config := System.Fixture.config }]]

/-- The manager has accepted a reset; the device then restarts. -/
def resetting : List Event :=
  [booted] ++ started ++
    [.call (.resetDevice true (ascii "web") []) [{}, { id := System.Fixture.id }], .crash, booted]

end Fixture

theorem reset_protocol_handover :
    Handover Fixture.site Fixture.policy
      (run Fixture.site Fixture.policy { partition := none } (Fixture.resetting ++ [.restart []]))
      (.call .bootstrap []) := by
  have hi : (run Fixture.site Fixture.policy { partition := none }
      (Fixture.resetting ++ [.restart []])).intent = true := by decide +kernel
  have hc : (step Fixture.site Fixture.policy (run Fixture.site Fixture.policy { partition := none }
      (Fixture.resetting ++ [.restart []])) (.call .bootstrap [])).intent = false := by decide +kernel
  have hs : Fixture.site.profile.storageStatusFile ≠ [] := by decide
  have hj : ∀ q ∈ Fixture.site.profile.resetPaths, inside q Fixture.site.journalPath = false := by
    decide +kernel
  have hp : ∀ q ∈ Fixture.policy.resetPaths, inside q Fixture.policy.journalPath = false := by
    decide +kernel
  have h := (reset_protocol Fixture.site Fixture.policy hs hj hp none (Fixture.resetting ++ [.restart []])).1
  generalize run Fixture.site Fixture.policy { partition := none }
    (Fixture.resetting ++ [.restart []]) = d at hi hc h ⊢
  exact h (.call .bootstrap []) hi hc

/-- In a maintenance boot the manager runs on a tmpfs and serves requests while the partition
still holds the intent; and a policy whose settings directory holds the journal loses the
intent in prepare. -/
theorem reset_protocol_breaks :
    ((run Fixture.site Fixture.policy {} (Fixture.resetting ++ [Fixture.maintenance] ++ Fixture.started)).intent =
        true ∧
      (System.perform Fixture.site (.apply System.Fixture.config) []
        (run Fixture.site Fixture.policy {}
          (Fixture.resetting ++ [Fixture.maintenance] ++ Fixture.started)).seen).1 = .ret .done) ∧
    ((run Fixture.site { Fixture.policy with settings := ascii "mnc-system" } {}
        (Fixture.resetting.dropLast)).intent = true ∧
      (run Fixture.site { Fixture.policy with settings := ascii "mnc-system" } {}
        Fixture.resetting).intent = false) := by
  refine ⟨⟨by decide +kernel, by decide +kernel⟩, by decide +kernel, by decide +kernel⟩

end Monutchee.Storage
