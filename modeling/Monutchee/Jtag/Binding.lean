import Monutchee.Jtag.Loader
import Mathlib.Data.List.Induction

/-!
# The loader keeps to its board

Every command that changes the hardware is executed on a target that was the only one of its
listing on the bound cable and, the PMU apart, with the bound device index. A selection that finds
no such target in twenty listings ends the run. The proof follows the number of listings in a row
that gave none: it is zero whenever a target is selected, and no event follows the twentieth.
-/

namespace Monutchee.Jtag
open Monutchee.Lib Monutchee.Lib.Act

/-! ### What a run may do -/

/-- The serial number of the cable, or its context when the serial number is empty. -/
def OnCable (b : Bound) (t : Target) : Prop :=
  if b.cableSerial ≠ [] then t.cableSerial = some b.cableSerial else t.cableCtx = some b.cableCtx

instance (b : Bound) (t : Target) : Decidable (OnCable b t) :=
  inferInstanceAs (Decidable (if b.cableSerial ≠ [] then t.cableSerial = some b.cableSerial
    else t.cableCtx = some b.cableCtx))

/-- A target of the bound hardware; the PMU is a device of its own on the cable. -/
def Fits (tcl : Tcl) (b : Bound) (pattern : Text) (t : Target) : Prop :=
  tcl.named pattern t = true ∧ OnCable b t ∧ (pattern ≠ PMU → t.deviceIndex = some b.deviceIndex)

instance (tcl : Tcl) (b : Bound) (pattern : Text) : DecidablePred (Fits tcl b pattern) := fun _ =>
  inferInstanceAs (Decidable (_ ∧ _ ∧ _))

def fitting (tcl : Tcl) (b : Bound) (pattern : Text) (l : Listing) : List Target :=
  l.targets.filter fun t => Fits tcl b pattern t

/-- The current target was the only one of its listing that fits the pattern of the listing. -/
def Aimed (tcl : Tcl) (b : Bound) (current : Option Chosen) : Prop :=
  ∃ x, current = some x ∧ fitting tcl b x.pattern x.listing = [x.target]

/-- A query that gave no unique target. -/
def misses (tcl : Tcl) (b : Bound) : Event → Bool
  | .query pattern (some l) => (fitting tcl b pattern l).length != 1
  | .query _ none => true
  | _ => false

def Safe (tcl : Tcl) (b : Bound) (trace : List Event) : Prop :=
  ∀ c current, Event.command c current ∈ trace → Aimed tcl b current

section Streak

variable {α : Type} (bad : α → Bool)

/-- How many of the last events in a row are bad. -/
def streak (trace : List α) : ℕ := trace.foldl (fun n e => if bad e then n + 1 else 0) 0

theorem streak_append (trace : List α) (e : α) :
    streak bad (trace ++ [e]) = if bad e then streak bad trace + 1 else 0 := by
  simp [streak]

/-- Nothing follows `limit` bad events in a row. -/
def Ended (limit : ℕ) (trace : List α) : Prop :=
  ∀ a c, trace = a ++ c → c ≠ [] → streak bad a < limit

variable {bad} {limit : ℕ} {trace : List α}

theorem ended_append (h : Ended bad limit trace) (hlast : streak bad trace < limit) (e : α) :
    Ended bad limit (trace ++ [e]) := by
  intro a c hac hc
  obtain ⟨c', x, rfl⟩ := List.eq_nil_or_concat c |>.resolve_left hc
  rw [List.concat_eq_append, ← List.append_assoc] at hac
  have htrace := (List.append_inj' hac rfl).1
  by_cases hc' : c' = []
  · rw [hc', List.append_nil] at htrace
    rw [← htrace]
    exact hlast
  · exact h a c' htrace hc'

theorem streak_window {a w : List α} (hw : ∀ e ∈ w, bad e = true) :
    streak bad (a ++ w) = streak bad a + w.length := by
  induction w using List.reverseRecOn with
  | nil => simp
  | append_singleton w e ih =>
    have hrest : ∀ x ∈ w, bad x = true := fun x hx => hw x (List.mem_append_left _ hx)
    rw [← List.append_assoc, streak_append, if_pos (hw e (by simp)), ih hrest, List.length_append]
    rfl

theorem Ended.window (h : Ended bad limit trace) {a w c : List α} (ht : trace = a ++ w ++ c)
    (hw : ∀ e ∈ w, bad e = true) (hlength : w.length = limit) : c = [] := by
  by_contra hc
  have hlt := h (a ++ w) c ht hc
  rw [streak_window hw] at hlt
  omega

end Streak

/-! ### One request -/

section Requests

variable {tcl : Tcl} {b : Bound}

/-- The machine is in order, and `attempts` more listings may miss. -/
structure Ready (tcl : Tcl) (b : Bound) (attempts : ℕ) (w : Machine) : Prop where
  safe : Safe tcl b w.trace
  ended : Ended (misses tcl b) 20 w.trace
  bounded : streak (misses tcl b) w.trace + attempts ≤ 20

theorem Ready.mono {m n : ℕ} {w : Machine} (h : Ready tcl b n w) (hmn : m ≤ n) : Ready tcl b m w :=
  ⟨h.safe, h.ended, by have := h.bounded; omega⟩

theorem Safe.record {trace : List Event} {e : Event} (h : Safe tcl b trace)
    (hsafe : ∀ c current, e = .command c current → Aimed tcl b current) : Safe tcl b (trace ++ [e]) := by
  intro c current hc
  rcases List.mem_append.mp hc with hc | hc
  · exact h c current hc
  · exact hsafe c current (List.mem_singleton.mp hc).symm

/-- An event that is no miss. -/
theorem Ready.record {n : ℕ} {w w' : Machine} {e : Event} (h : Ready tcl b (n + 1) w)
    (ht : w'.trace = w.trace ++ [e]) (hmiss : misses tcl b e = false)
    (hsafe : ∀ c current, e = .command c current → Aimed tcl b current) : Ready tcl b 20 w' := by
  have hbounded := h.bounded
  refine ⟨?_, ?_, ?_⟩
  · rw [ht]
    exact h.safe.record hsafe
  · rw [ht]
    exact ended_append h.ended (by omega) e
  · rw [ht, streak_append, hmiss]
    simp

/-- A query, which may miss. -/
theorem Ready.query {n : ℕ} {w w' : Machine} {pattern : Text} {result : Option Listing}
    (h : Ready tcl b (n + 1) w) (ht : w'.trace = w.trace ++ [.query pattern result]) : Ready tcl b n w' := by
  have hbounded := h.bounded
  refine ⟨?_, ?_, ?_⟩
  · rw [ht]
    apply h.safe.record
    intro c current hc
    cases hc
  · rw [ht]
    exact ended_append h.ended (by omega) _
  · rw [ht, streak_append]
    split <;> omega

/-- What a request does is known up to the answers that are left. -/
theorem request_upholds {α : Type} {I : Machine → Prop} {Q : α → Machine → Prop}
    {effect : Answer → Machine → Machine} {value : Answer → α} {w : Machine}
    (hkept : ∀ a w', w'.trace = w.trace → w'.listing = w.listing → w'.current = w.current → I (effect a w'))
    (hpost : ∀ a w', w'.trace = w.trace → w'.listing = w.listing → w'.current = w.current →
      a.fails = false → Q (value a) (effect a w')) : Upholds I (request effect value) w Q := by
  have hdraw : w.draw.2.trace = w.trace ∧ w.draw.2.listing = w.listing ∧ w.draw.2.current = w.current :=
    ⟨rfl, rfl, rfl⟩
  obtain ⟨h1, h2, h3⟩ := hdraw
  unfold request
  rcases hd : w.draw with ⟨a, w'⟩
  rw [hd] at h1 h2 h3
  cases hf : a.fails with
  | true =>
    refine ⟨by simpa [hd, hf] using hkept a w' h1 h2 h3, ?_⟩
    intro x w'' hx
    simp [hd, hf] at hx
  | false =>
    refine ⟨by simpa [hd, hf] using hkept a w' h1 h2 h3, ?_⟩
    intro x w'' hx
    simp only [hd, hf, Bool.false_eq_true, if_false, Prod.mk.injEq, Outcome.ret.injEq] at hx
    obtain ⟨rfl, rfl⟩ := hx
    exact hpost a w' h1 h2 h3 hf

theorem caught_upholds {α : Type} {I : Machine → Prop} {m : Prog α} {w : Machine} {Q : α → Machine → Prop}
    (h : Upholds I m w Q) :
    Upholds I (caught m) w fun r w' => I w' ∧ ∀ a, r = .ok a → Q a w' := by
  have hk := h.kept
  unfold caught Act.attempt
  rcases hm : m w with ⟨o, w'⟩
  rw [hm] at hk
  cases o with
  | ret a =>
    have hq := h.post a w' hm
    constructor
    · rw [Act.bind_of_ret hm]
      exact hk
    · intro r w'' hr
      rw [Act.bind_of_ret hm] at hr
      cases hr
      refine ⟨hk, ?_⟩
      intro a' ha'
      cases ha'
      exact hq
  | raise e =>
    constructor
    · rw [Act.bind_of_raise hm]
      exact hk
    · intro r w'' hr
      rw [Act.bind_of_raise hm] at hr
      cases hr
      exact ⟨hk, fun a ha => by cases ha⟩
  | crash =>
    constructor
    · rw [Act.bind_of_crash hm]
      exact hk
    · intro r w'' hr
      rw [Act.bind_of_crash hm] at hr
      cases hr

theorem item_upholds {I : Machine → Prop} {v : Option Text} {w : Machine} (hw : I w) :
    Upholds I (item v) w fun x w' => w' = w ∧ v = some x := by
  cases v with
  | some x => exact Upholds.pure hw ⟨rfl, rfl⟩
  | none => exact Upholds.raise hw

theorem require_upholds {I : Machine → Prop} {ok : Bool} {e : Error} {w : Machine} (hw : I w) :
    Upholds I (Act.require ok e : Prog Unit) w fun _ w' => w' = w := Upholds.require hw fun _ => rfl

theorem read_upholds {I : Machine → Prop} {w : Machine}
    (hI : ∀ w', w'.trace = w.trace → w'.current = w.current → I w') :
    Upholds I read w fun _ w' => w'.trace = w.trace ∧ w'.current = w.current :=
  request_upholds (fun _ w' h1 _ h3 => hI w' h1 h3) fun _ _ h1 _ h3 _ => ⟨h1, h3⟩

theorem Ready.of_trace {n : ℕ} {w w' : Machine} (h : Ready tcl b n w) (ht : w'.trace = w.trace) :
    Ready tcl b n w' := ⟨ht ▸ h.safe, ht ▸ h.ended, ht ▸ h.bounded⟩

/-- The machine is ready and its current target fits. -/
def OnTarget (tcl : Tcl) (b : Bound) (w : Machine) : Prop := Ready tcl b 20 w ∧ Aimed tcl b w.current

/-- Commands are executed on the current target and leave it where it is. -/
theorem command_upholds {w : Machine} (h : OnTarget tcl b w) (c : Command) :
    Upholds (OnTarget tcl b) (command c) w fun _ w' => OnTarget tcl b w' := by
  have hdone : ∀ w' : Machine, w'.trace = w.trace → w'.current = w.current →
      OnTarget tcl b (w'.record (.command c w'.current)) := by
    intro w' h1 h3
    have haimed : Aimed tcl b w'.current := h3 ▸ h.2
    refine ⟨(h.1.of_trace h1).record (n := 19) rfl rfl ?_, haimed⟩
    intro c' current he
    cases he
    exact haimed
  exact request_upholds (fun _ w' h1 _ h3 => hdone w' h1 h3) fun _ w' h1 _ h3 _ => hdone w' h1 h3

/-- After a new connection nothing is selected. -/
theorem reconnect_upholds {w : Machine} (h : Ready tcl b 20 w) :
    Upholds (Ready tcl b 20) reconnect w fun _ w' => Ready tcl b 20 w' := by
  have hconnect : ∀ (w : Machine) (e : Event), Ready tcl b 20 w → misses tcl b e = false →
      (∀ c current, e ≠ .command c current) →
      Upholds (Ready tcl b 20) (request (fun _ w => w.forget.record e) fun _ => ()) w
        fun _ w' => Ready tcl b 20 w' := by
    intro w e hw hmiss hcommand
    have hdone : ∀ w' : Machine, w'.trace = w.trace → Ready tcl b 20 (w'.forget.record e) := by
      intro w' h1
      exact (hw.of_trace h1).record (n := 19) rfl hmiss fun c current he => absurd he (hcommand c current)
    exact request_upholds (fun _ w' h1 _ _ => hdone w' h1) fun _ w' h1 _ _ _ => hdone w' h1
  refine Upholds.bind (hconnect w .disconnect h rfl (by simp)) ?_
  intro _ w' _ hw'
  exact hconnect w' .connect hw' rfl (by simp)

/-! ### Selecting -/

/-- The scope in which the loader looks for a pattern. -/
def scopeOf (pattern : Text) : Scope := if pattern = PMU then .cable else .device

theorem selects_iff (hb : b.targetId ≠ []) (pattern : Text) (t : Target) :
    selects tcl b pattern (scopeOf pattern) t = decide (Fits tcl b pattern t) := by
  have hcable : (if b.cableSerial ≠ [] then t.cableSerial == some b.cableSerial
      else t.cableCtx == some b.cableCtx) = decide (OnCable b t) := by
    unfold OnCable
    by_cases hs : b.cableSerial = []
    · simp [hs, Bool.beq_eq_decide_eq]
    · simp [hs, Bool.beq_eq_decide_eq]
  have hid : (b.targetId == []) = false := beq_false_of_ne hb
  unfold selects targetMatchesSelectedHardware Fits scopeOf
  rw [hcable, hid]
  by_cases hn : tcl.named pattern t = true
  · by_cases hc : OnCable b t
    · by_cases hp : pattern = PMU
      · simp [hc, hp]
      · simp [hn, hc, hp, Bool.beq_eq_decide_eq]
    · simp [hn, hc]
  · simp [hn]

theorem filter_selects (hb : b.targetId ≠ []) (pattern : Text) (l : Listing) :
    l.targets.filter (selects tcl b pattern (scopeOf pattern)) = fitting tcl b pattern l := by
  unfold fitting
  congr 1
  funext t
  exact selects_iff hb pattern t

/-- In a listing an id belongs to one target. -/
theorem byId_eq {l : Listing} {t : Target} {id : Text} (ht : t ∈ l.targets) (hid : t.targetId = some id) :
    l.byId id = some t := by
  have hdistinct := l.distinct
  unfold Listing.byId
  generalize l.targets = targets at ht hdistinct
  induction targets with
  | nil => cases ht
  | cons x rest ih =>
    rw [List.find?_cons]
    by_cases hx : x.targetId = some id
    · rcases List.mem_cons.mp ht with rfl | ht
      · simp [hx]
      · rw [List.filterMap_cons, hx, List.nodup_cons] at hdistinct
        exact absurd (List.mem_filterMap.mpr ⟨t, ht, hid⟩) hdistinct.1
    · rw [beq_false_of_ne hx]
      rcases List.mem_cons.mp ht with rfl | ht
      · exact absurd hid hx
      · refine ih ht ?_
        rw [List.filterMap_cons] at hdistinct
        split at hdistinct
        · exact hdistinct
        · exact (List.nodup_cons.mp hdistinct).2

theorem listTargets_upholds {n : ℕ} {w : Machine} (h : Ready tcl b (n + 1) w) (pattern : Text) :
    Upholds (Ready tcl b n) (listTargets pattern (.query pattern)) w fun l w' =>
      w'.listing = some (pattern, l) ∧ ((fitting tcl b pattern l).length = 1 → Ready tcl b 20 w') := by
  apply request_upholds
  · intro a w' h1 _ _
    exact (h.of_trace h1).query rfl
  · intro a w' h1 _ _ hf
    refine ⟨by simp [Machine.record, hf], ?_⟩
    intro hone
    have hmiss : misses tcl b (.query pattern a.listed) = false := by
      simp [misses, Answer.listed, hf, hone]
    exact (h.of_trace h1).record rfl hmiss fun c current he => by cases he

theorem selectId_upholds {n : ℕ} {w : Machine} (h : Ready tcl b (n + 1) w) (id : Text) :
    Upholds (Ready tcl b 20) (selectId id) w fun _ w' => Ready tcl b 20 w' ∧ w'.current = w.denotes id := by
  have hdone : ∀ (w' : Machine) (current : Option Chosen) (ok : Bool), w'.trace = w.trace →
      Ready tcl b 20 ({ w' with current := current }.record (.select id ok)) := by
    intro w' current ok h1
    exact Ready.record (h.of_trace h1) (w := w') rfl rfl fun c current he => by cases he
  apply request_upholds
  · intro a w' h1 _ _
    exact hdone w' _ _ h1
  · intro a w' h1 h2 _ hf
    refine ⟨hdone w' _ _ h1, ?_⟩
    simp [Machine.record, Machine.denotes, hf, h2]

/-- A selection returns on a target that fits, and the listings that gave none are counted. -/
theorem selectLoop_upholds (hb : b.targetId ≠ []) (pattern : Text) {attempts found : ℕ} {observed : List Target}
    {queryError : Option Error} {w : Machine} (h : Ready tcl b attempts w) :
    Upholds (Ready tcl b 0) (selectLoop tcl b pattern (scopeOf pattern) attempts found observed queryError) w
      fun _ w' => OnTarget tcl b w' := by
  induction attempts generalizing found observed queryError w with
  | zero => exact Upholds.raise h
  | succ attempts ih =>
    unfold selectLoop
    have hquery := (caught_upholds (listTargets_upholds h pattern)).weaken fun _ hw => hw.mono (Nat.zero_le _)
    refine Upholds.bind (hquery.mono fun _ _ _ hq => hq.2) ?_
    rintro answer w₁ hw₁ ⟨hready, hanswer⟩
    cases answer with
    | error e => exact ih hready
    | ok l =>
      obtain ⟨hlisting, hone⟩ := hanswer l rfl
      simp only [filter_selects hb]
      cases hfit : fitting tcl b pattern l with
      | nil => exact ih hready
      | cons t rest =>
        cases rest with
        | cons t' rest => exact ih hready
        | nil =>
          have hready' := hone (by rw [hfit]; rfl)
          refine Upholds.bind (item_upholds hw₁) ?_
          rintro id w₂ hw₂ ⟨rfl, hid⟩
          have hselect := (caught_upholds (selectId_upholds (n := 19) hready' id)).weaken
            fun _ hw => hw.mono (Nat.zero_le _)
          refine Upholds.bind (hselect.mono fun _ _ _ hq => hq.2) ?_
          rintro ok w₃ hw₃ ⟨hready₃, hok⟩
          cases ok with
          | error e => exact ih (hready₃.mono (by have := h.bounded; omega))
          | ok u =>
            obtain ⟨-, hcurrent⟩ := hok u rfl
            have hmem : t ∈ l.targets := by
              have : t ∈ fitting tcl b pattern l := by rw [hfit]; simp
              exact List.mem_of_mem_filter this
            refine Upholds.pure hw₃ ⟨hready₃, ⟨t, pattern, l⟩, ?_, hfit⟩
            rw [hcurrent, Machine.denotes, hlisting, Option.bind_some, byId_eq hmem hid]
            rfl

theorem selectTarget_upholds (hb : b.targetId ≠ []) (pattern : Text) {w : Machine} (h : Ready tcl b 20 w) :
    Upholds (Ready tcl b 0) (selectTarget tcl b pattern (scopeOf pattern)) w fun _ w' => OnTarget tcl b w' :=
  selectLoop_upholds hb pattern h

/-! ### The parts of the boot -/

theorem commandStep (c : Command) {w : Machine} (h : OnTarget tcl b w) :
    Upholds (Ready tcl b 0) (command c) w fun _ w' => OnTarget tcl b w' :=
  ((command_upholds h c).weaken fun _ hw => hw.1.mono (Nat.zero_le _)).mono fun _ _ _ hq => hq.2

theorem caughtCommand (c : Command) {w : Machine} (h : OnTarget tcl b w) :
    Upholds (Ready tcl b 0) (caught (command c)) w fun _ w' => OnTarget tcl b w' :=
  ((caught_upholds (command_upholds h c)).weaken fun _ hw => hw.1.mono (Nat.zero_le _)).mono
    fun _ _ _ hq => hq.1

/-- What follows a load: nothing, or another round. -/
def orRetry (again : Error → Prog Unit) : Except Error Unit → Prog Unit
  | .ok () => pure ()
  | .error e => again e

/-- One round. -/
theorem downloadLoop_succ (tcl : Tcl) (b : Bound) (pattern : Text) (scope : Scope) (image : Image) (halt : Bool)
    (load : Command) (attempts : ℕ) (last : Option Error) :
    downloadLoop tcl b pattern scope image halt load (attempts + 1) last =
      selectTarget tcl b pattern scope >>= fun _ =>
        if halt then caught (command .stop) >>= fun _ => caught (command load) >>=
          orRetry fun e => downloadLoop tcl b pattern scope image halt load attempts (some e)
        else caught (command load) >>=
          orRetry fun e => downloadLoop tcl b pattern scope image halt load attempts (some e) := by
  rw [downloadLoop]
  rfl

theorem downloadLoop_upholds (hb : b.targetId ≠ []) (pattern : Text) (image : Image) (halt : Bool)
    (load : Command) {attempts : ℕ} {last : Option Error} {w : Machine} (h : Ready tcl b 20 w) :
    Upholds (Ready tcl b 0) (downloadLoop tcl b pattern (scopeOf pattern) image halt load attempts last) w
      fun _ w' => OnTarget tcl b w' := by
  induction attempts generalizing last w with
  | zero => exact Upholds.raise (h.mono (Nat.zero_le _))
  | succ attempts ih =>
    rw [downloadLoop_succ]
    refine Upholds.bind (selectTarget_upholds hb pattern h) ?_
    intro _ w₁ _ ht
    have hload : ∀ w₁, OnTarget tcl b w₁ → Upholds (Ready tcl b 0) (caught (command load) >>=
        orRetry fun e => downloadLoop tcl b pattern (scopeOf pattern) image halt load attempts (some e)) w₁
        fun _ w' => OnTarget tcl b w' := by
      intro w₁ ht
      refine Upholds.bind (caughtCommand load ht) ?_
      intro result w₂ hw₂ ht₂
      cases result with
      | ok u => exact Upholds.pure hw₂ ht₂
      | error e => exact ih ht₂.1
    cases halt with
    | false => exact hload w₁ ht
    | true =>
      refine Upholds.bind (caughtCommand .stop ht) ?_
      intro _ w₂ _ ht₂
      exact hload w₂ ht₂

theorem selectAnd_upholds (hb : b.targetId ≠ []) (pattern : Text) (c : Command) {w : Machine}
    (h : Ready tcl b 20 w) :
    Upholds (Ready tcl b 0) (selectAnd tcl b pattern (scopeOf pattern) c) w fun _ w' => OnTarget tcl b w' := by
  refine Upholds.bind (selectTarget_upholds hb pattern h) ?_
  intro _ w₁ _ ht
  exact commandStep c ht

/-- A single listing of the check may miss, but then the run ends. -/
theorem fsblTarget_upholds (hb : b.targetId ≠ []) {pattern : Text} (hp : pattern ≠ PMU) {w : Machine}
    (h : Ready tcl b 20 w) :
    Upholds (Ready tcl b 19) (fsblTarget tcl b pattern) w fun _ w' => Ready tcl b 20 w' := by
  have hscope : scopeOf pattern = .device := if_neg hp
  unfold fsblTarget
  refine Upholds.bind (listTargets_upholds (n := 19) h pattern) ?_
  rintro l w₁ hw₁ ⟨-, hone⟩
  have hfit := @filter_selects tcl b hb pattern l
  rw [hscope] at hfit
  rw [hfit]
  split
  · rename_i t ht
    exact Upholds.pure hw₁ (hone (by rw [ht]; rfl))
  · exact Upholds.raise hw₁

theorem psu_ne_pmu : PSU ≠ PMU := by decide

theorem a53_ne_pmu : A53 ≠ PMU := by decide

theorem requireFsblSuccess_upholds (hb : b.targetId ≠ []) {w : Machine} (h : Ready tcl b 20 w) :
    Upholds (Ready tcl b 19) (requireFsblSuccess tcl b) w fun _ w' => Ready tcl b 20 w' := by
  have hdown : ∀ w, Ready tcl b 20 w → Ready tcl b 19 w := fun _ hw => hw.mono (by omega)
  unfold requireFsblSuccess
  refine Upholds.bind (fsblTarget_upholds hb a53_ne_pmu h) ?_
  intro core w₁ _ h₁
  refine Upholds.bind (fsblTarget_upholds hb psu_ne_pmu h₁) ?_
  intro psu w₂ hw₂ h₂
  refine Upholds.bind (require_upholds hw₂) ?_
  rintro _ w₃ hw₃ rfl
  refine Upholds.bind (item_upholds hw₃) ?_
  rintro coreId w₄ hw₄ ⟨rfl, -⟩
  have hstatus : Upholds (Ready tcl b 20) (do
      let psuId ← item psu.targetId
      selectId psuId
      let value ← read
      Act.require (value == some 0) .fsblStatus) w₄ fun _ _ => True := by
    refine Upholds.bind (item_upholds h₂) ?_
    rintro psuId w₅ h₅ ⟨rfl, -⟩
    refine Upholds.bind (selectId_upholds (n := 19) h₅ psuId) ?_
    intro _ w₆ h₆ _
    refine Upholds.bind (read_upholds fun w' ht _ => h₆.of_trace ht) ?_
    intro value w₇ h₇ _
    exact Upholds.require h₇ fun _ => trivial
  refine Upholds.bind (((caught_upholds hstatus).weaken hdown).mono fun _ _ _ hq => hq.1) ?_
  intro status w₅ hw₅ h₅
  refine Upholds.bind (((caught_upholds (selectId_upholds (n := 19) h₅ coreId)).weaken hdown).mono
    fun _ _ _ hq => hq.1) ?_
  intro restore w₆ hw₆ h₆
  cases status with
  | error e => exact Upholds.raise hw₆
  | ok u => exact Upholds.lift hw₆ fun _ _ => h₆

theorem runToBreakpoint_upholds (hb : b.targetId ≠ []) (address : ℤ) {w : Machine} (h : OnTarget tcl b w) :
    Upholds (Ready tcl b 19) (runToBreakpoint tcl b address) w fun _ w' => Ready tcl b 20 w' := by
  have hdown : ∀ w, OnTarget tcl b w → Ready tcl b 19 w := fun _ hw => hw.1.mono (by omega)
  unfold runToBreakpoint
  refine Upholds.bind (((command_upholds h (.con true)).weaken hdown).mono fun _ _ _ hq => hq.2) ?_
  intro _ w₁ hw₁ h₁
  refine Upholds.bind (read_upholds fun w' ht _ => hw₁.of_trace ht) ?_
  rintro pc w₂ hw₂ ⟨ht₂, -⟩
  have h₂ := h₁.1.of_trace ht₂
  refine Upholds.bind (require_upholds hw₂) ?_
  rintro _ w₃ _ rfl
  exact requireFsblSuccess_upholds hb h₂

theorem runFsblToExit_upholds (hb : b.targetId ≠ []) {w : Machine} (h : OnTarget tcl b w) :
    Upholds (Ready tcl b 0) (runFsblToExit tcl b) w fun _ w' => Ready tcl b 20 w' := by
  have hdown : ∀ w, Ready tcl b 19 w → Ready tcl b 0 w := fun _ hw => hw.mono (Nat.zero_le _)
  have hw := h.1.mono (Nat.zero_le 20)
  unfold runFsblToExit
  refine Upholds.bind (read_upholds fun w' ht _ => hw.of_trace ht) ?_
  rintro symbol w₁ hw₁ ⟨ht₁, hc₁⟩
  have h₁ : OnTarget tcl b w₁ := ⟨h.1.of_trace ht₁, hc₁ ▸ h.2⟩
  cases symbol with
  | none => exact Upholds.raise hw₁
  | some address =>
    refine Upholds.bind (require_upholds hw₁) ?_
    rintro _ w₂ _ rfl
    refine Upholds.bind (commandStep .bpadd h₁) ?_
    intro _ w₃ _ h₃
    refine Upholds.bind ((caught_upholds (runToBreakpoint_upholds hb address h₃)).weaken hdown) ?_
    rintro status w₄ hw₄ ⟨-, -, hok⟩
    have hread : Upholds (fun w' : Machine => w'.trace = w₄.trace) read w₄ fun _ _ => True :=
      (read_upholds fun _ ht _ => ht).mono fun _ _ _ _ => trivial
    refine Upholds.bind ((caught_upholds hread).weaken fun w' ht => hw₄.of_trace ht) ?_
    rintro cleanup w₅ hw₅ ⟨ht₅, -⟩
    cases status with
    | error e => exact Upholds.raise hw₅
    | ok u =>
      have h₅ : Ready tcl b 20 w₅ := (hok u rfl).of_trace ht₅
      cases cleanup with
      | error e => exact Upholds.raise hw₅
      | ok v => exact Upholds.pure hw₅ h₅

/-! ### The boot -/

theorem deviceTarget (hb : b.targetId ≠ []) {pattern : Text} (hp : pattern ≠ PMU) {w : Machine}
    (h : Ready tcl b 20 w) :
    Upholds (Ready tcl b 0) (selectTarget tcl b pattern .device) w fun _ w' => OnTarget tcl b w' := by
  have hselect := selectTarget_upholds hb pattern h
  rwa [scopeOf, if_neg hp] at hselect

theorem deviceAnd (hb : b.targetId ≠ []) {pattern : Text} (hp : pattern ≠ PMU) (c : Command) {w : Machine}
    (h : Ready tcl b 20 w) :
    Upholds (Ready tcl b 0) (selectAnd tcl b pattern .device c) w fun _ w' => OnTarget tcl b w' := by
  have hselect := selectAnd_upholds hb pattern c h
  rwa [scopeOf, if_neg hp] at hselect

theorem deviceDownload (hb : b.targetId ≠ []) {pattern : Text} (hp : pattern ≠ PMU) (image : Image)
    (halt : Bool) (load : Command) {w : Machine} (h : Ready tcl b 20 w) :
    Upholds (Ready tcl b 0) (downloadLoop tcl b pattern .device image halt load 3 none) w
      fun _ w' => OnTarget tcl b w' := by
  have hload : Upholds (Ready tcl b 0)
      (downloadLoop tcl b pattern (scopeOf pattern) image halt load 3 none) w fun _ w' => OnTarget tcl b w' :=
    downloadLoop_upholds hb pattern image halt load h
  rwa [scopeOf, if_neg hp] at hload

/-- An error with another text is the same end. -/
theorem reraise_upholds {I : Machine → Prop} {Q : Unit → Machine → Prop} {m : Prog Unit} {w : Machine}
    (h : Upholds I m w Q) (f : Error → Error) :
    Upholds I (Act.attempt m fun e => Act.raise (f e)) w Q :=
  h.attempt fun _ _ hw _ => Upholds.raise hw

theorem pulseBoardReset_upholds (hb : b.targetId ≠ []) (config : Config) {w : Machine} (h : Ready tcl b 20 w) :
    Upholds (Ready tcl b 0) (pulseBoardReset tcl config b) w fun _ w' => Ready tcl b 20 w' := by
  unfold pulseBoardReset
  refine Upholds.bind (deviceTarget hb psu_ne_pmu h) ?_
  intro _ w₁ _ h₁
  exact (reraise_upholds (commandStep _ h₁) _).mono fun _ _ _ hq => hq.1

theorem connected {w : Machine} (h : Ready tcl b 20 w) :
    Upholds (Ready tcl b 0) reconnect w fun _ w' => Ready tcl b 20 w' :=
  ((reconnect_upholds h).weaken fun _ hw => hw.mono (Nat.zero_le _)).mono fun _ _ _ hq => hq.2

theorem forceBootMode_upholds (hb : b.targetId ≠ []) (config : Config) {w : Machine} (h : Ready tcl b 20 w) :
    Upholds (Ready tcl b 0) (forceBootMode tcl config b) w fun _ w' => Ready tcl b 20 w' := by
  have hswitch : ∀ w, Ready tcl b 20 w →
      Upholds (Ready tcl b 0) (switchToJtagBootMode tcl b) w fun _ w' => Ready tcl b 20 w' := by
    intro w h
    unfold switchToJtagBootMode
    refine Upholds.bind (deviceTarget hb psu_ne_pmu h) ?_
    intro _ w₁ _ h₁
    refine Upholds.bind (commandStep _ h₁) ?_
    intro _ w₂ _ h₂
    refine Upholds.bind (commandStep _ h₂) ?_
    intro _ w₃ _ h₃
    exact (commandStep _ h₃).mono fun _ _ _ hq => hq.1
  unfold forceBootMode
  cases config.forceJtagBoot with
  | false => exact Upholds.pure (h.mono (Nat.zero_le _)) h
  | true =>
    refine Upholds.bind (connected h) ?_
    intro _ w₁ _ h₁
    exact reraise_upholds (hswitch w₁ h₁) _

theorem boot_upholds (hb : b.targetId ≠ []) (config : Config) {w : Machine} (h : Ready tcl b 20 w) :
    Upholds (Ready tcl b 0) (boot tcl config b) w fun _ w' => OnTarget tcl b w' := by
  have hpmu : scopeOf PMU = .cable := if_pos rfl
  unfold boot
  refine Upholds.bind (pulseBoardReset_upholds hb config h) ?_
  intro _ w₁ _ h₁
  refine Upholds.bind (forceBootMode_upholds hb config h₁) ?_
  intro _ w₂ _ h₂
  refine Upholds.bind (connected h₂) ?_
  intro _ w₃ _ h₃
  refine Upholds.bind (deviceAnd hb psu_ne_pmu _ h₃) ?_
  intro _ w₄ _ h₄
  -- the PMU, by the cable alone
  refine Upholds.bind (hpmu ▸ downloadLoop_upholds hb PMU _ _ _ h₄.1) ?_
  intro _ w₅ _ h₅
  refine Upholds.bind (hpmu ▸ selectAnd_upholds hb PMU _ h₅.1) ?_
  intro _ w₆ _ h₆
  refine Upholds.bind (deviceAnd hb a53_ne_pmu _ h₆.1) ?_
  intro _ w₇ _ h₇
  -- the boot loader, up to its exit
  refine Upholds.bind (deviceDownload hb a53_ne_pmu _ _ _ h₇.1) ?_
  intro _ w₈ _ h₈
  refine Upholds.bind (deviceTarget hb a53_ne_pmu h₈.1) ?_
  intro _ w₉ _ h₉
  refine Upholds.bind (runFsblToExit_upholds hb h₉) ?_
  intro _ w₁₀ _ h₁₀
  refine Upholds.bind (deviceDownload hb a53_ne_pmu _ _ _ h₁₀) ?_
  intro _ w₁₁ _ h₁₁
  refine Upholds.bind (deviceAnd hb a53_ne_pmu _ h₁₁.1) ?_
  intro _ w₁₂ _ h₁₂
  refine Upholds.bind (deviceAnd hb a53_ne_pmu _ h₁₂.1) ?_
  intro _ w₁₃ _ h₁₃
  -- the data of the boot
  refine Upholds.bind (deviceDownload hb a53_ne_pmu _ _ _ h₁₃.1) ?_
  intro _ w₁₄ hw₁₄ h₁₄
  have henvironment : Upholds (Ready tcl b 0) (downloadEnvOverride tcl b 0x1ff00100) w₁₄
      fun _ w' => OnTarget tcl b w' := by
    unfold downloadEnvOverride
    refine Upholds.bind (read_upholds fun w' ht _ => hw₁₄.of_trace ht) ?_
    rintro _ w' _ ⟨ht, -⟩
    exact deviceDownload hb a53_ne_pmu _ _ _ (h₁₄.1.of_trace ht)
  refine Upholds.bind henvironment ?_
  intro _ w₁₅ _ h₁₅
  refine Upholds.bind (commandStep _ h₁₅) ?_
  intro _ w₁₆ _ h₁₆
  refine Upholds.bind (commandStep _ h₁₆) ?_
  intro _ w₁₇ _ h₁₇
  refine Upholds.bind (deviceDownload hb a53_ne_pmu _ _ _ h₁₇.1) ?_
  intro _ w₁₈ _ h₁₈
  exact deviceAnd hb a53_ne_pmu _ h₁₈.1

end Requests

/-! ### Binding -/

/-- Up to the binding there are only connections and scans. -/
def Scanning (w : Machine) : Prop := ∀ e ∈ w.trace, e = .connect ∨ ∃ result, e = .scan result

theorem Scanning.record {w w' : Machine} (h : Scanning w) (ht : w'.trace = w.trace) {e : Event}
    (he : e = .connect ∨ ∃ result, e = .scan result) : Scanning (w'.record e) := by
  intro x hx
  rw [Machine.record, ht] at hx
  rcases List.mem_append.mp hx with hx | hx
  · exact h x hx
  · rw [List.mem_singleton.mp hx]
    exact he

theorem Scanning.ready {w : Machine} (h : Scanning w) (tcl : Tcl) (b : Bound) : Ready tcl b 20 w := by
  have hmiss : ∀ trace : List Event, (∀ e ∈ trace, e = .connect ∨ ∃ result, e = .scan result) →
      streak (misses tcl b) trace = 0 := by
    intro trace ht
    rcases List.eq_nil_or_concat trace with rfl | ⟨l, e, rfl⟩
    · rfl
    · rw [List.concat_eq_append, streak_append]
      rcases ht e (by simp) with rfl | ⟨result, rfl⟩
      · rfl
      · rfl
  refine ⟨?_, ?_, by rw [hmiss _ h]⟩
  · intro c current hc
    rcases h _ hc with he | ⟨result, he⟩
    · cases he
    · cases he
  · intro a c hac _
    rw [hmiss a fun e he => h e (by rw [hac]; exact List.mem_append_left _ he)]
    omega

/-- The targets of a listing that the arguments ask for. -/
def asked (tcl : Tcl) (args : Arguments) (l : Listing) : List Target :=
  l.targets.filter fun t => tcl.named PSU t && args.picks t

/-- What is bound is the one target of a recorded scan that the arguments ask for: the cable and the
device that they give, or the id where they give no cable. -/
structure Requested (tcl : Tcl) (args : Arguments) (b : Bound) (trace : List Event) : Prop where
  scanned : ∃ l t, Event.scan (some l) ∈ trace ∧ asked tcl args l = [t] ∧ t.targetId = some b.targetId ∧
    t.deviceIndex = some b.deviceIndex ∧ b.cableSerial = t.cableSerial.getD args.cableSerial ∧
    b.cableCtx = t.cableCtx.getD []
  serial : args.cableSerial ≠ [] → b.cableSerial = args.cableSerial
  index : args.cableSerial ≠ [] → args.deviceIndex ≠ [] → b.deviceIndex = args.deviceIndex
  id : args.cableSerial = [] → b.targetId = args.targetId

/-- What a run binds of the one target it found. -/
theorem requested_of_scan {tcl : Tcl} {args : Arguments} {trace : List Event} {l : Listing} {t : Target}
    {targetId index : Text} (hl : Event.scan (some l) ∈ trace) (hone : asked tcl args l = [t])
    (hid : t.targetId = some targetId) (hindex : t.deviceIndex = some index) :
    Requested tcl args ⟨targetId, t.cableCtx.getD [], t.cableSerial.getD args.cableSerial, index⟩ trace := by
  have hmem : t ∈ asked tcl args l := by rw [hone]; simp
  have hboth := (List.mem_filter.mp hmem).2
  rw [Bool.and_eq_true] at hboth
  have hpicks := hboth.2
  refine ⟨⟨l, t, hl, hone, hid, hindex, rfl, rfl⟩, ?_, ?_, ?_⟩
  · intro hserial
    simp only [Arguments.picks, ne_eq, hserial, not_false_eq_true, if_true, Bool.and_eq_true, beq_iff_eq] at hpicks
    show t.cableSerial.getD args.cableSerial = args.cableSerial
    rw [hpicks.1]
    rfl
  · intro hserial hgiven
    simp only [Arguments.picks, ne_eq, hserial, not_false_eq_true, if_true, Bool.and_eq_true, Bool.or_eq_true,
      beq_iff_eq, hgiven, false_or] at hpicks
    exact Option.some.inj (hindex.symm.trans hpicks.2)
  · intro hserial
    simp only [Arguments.picks, ne_eq, hserial, not_true_eq_false, if_false, beq_iff_eq] at hpicks
    exact Option.some.inj (hid.symm.trans hpicks)

theorem scanTargets_upholds (tcl : Tcl) (args : Arguments) {attempts : ℕ} {w : Machine} (h : Scanning w) :
    Upholds Scanning (scanTargets tcl args attempts) w fun selected w' =>
      selected ≠ [] → ∃ l, Event.scan (some l) ∈ w'.trace ∧ selected = asked tcl args l := by
  induction attempts generalizing w with
  | zero => exact Upholds.pure h fun hne => absurd rfl hne
  | succ attempts ih =>
    unfold scanTargets
    have hscan : Upholds Scanning (listTargets PSU .scan) w fun l w' => Event.scan (some l) ∈ w'.trace := by
      refine request_upholds (fun _ _ h1 _ _ => h.record h1 (.inr ⟨_, rfl⟩)) ?_
      intro a w' _ _ _ hf
      simp [Machine.record, Answer.listed, hf]
    refine Upholds.bind hscan ?_
    intro l w₁ h₁ hl
    by_cases hsome : (l.targets.filter fun t => tcl.named PSU t && args.picks t) ≠ []
    · simp only [if_pos hsome]
      exact Upholds.pure h₁ fun _ => ⟨l, hl, rfl⟩
    · simp only [if_neg hsome]
      exact ih h₁

/-- A bound run knows its target and its cable. -/
theorem bind_upholds (tcl : Tcl) (args : Arguments) (hid : args.targetId ≠ []) {w : Machine} (h : Scanning w) :
    Upholds Scanning (bind tcl args) w fun b w' =>
      Scanning w' ∧ b.targetId ≠ [] ∧ (b.cableSerial ≠ [] ∨ b.cableCtx ≠ []) ∧ Requested tcl args b w'.trace := by
  have hconnect : Upholds Scanning connect w fun _ _ => True :=
    request_upholds (fun _ w' h1 _ _ => @Scanning.record w w'.forget h h1 _ (.inl rfl))
      fun _ _ _ _ _ _ => trivial
  unfold bind initializeTargetSelector
  refine Upholds.bind hconnect ?_
  intro _ w₁ h₁ _
  rw [if_neg (fun hn => hid hn.1)]
  refine Upholds.bind (scanTargets_upholds tcl args h₁) ?_
  intro selected w₂ h₂ hselected
  split
  · rename_i target
    obtain ⟨l, hl, hone⟩ := hselected (by simp)
    refine Upholds.bind (item_upholds h₂) ?_
    rintro id w₃ h₃ ⟨rfl, hid'⟩
    cases hindex : target.deviceIndex with
    | none => exact Upholds.raise h₃
    | some index =>
      refine Upholds.bind (Upholds.pure (Q := fun i w' => i = index ∧ w' = w₃) h₃ ⟨rfl, rfl⟩) ?_
      rintro _ w₄ _ ⟨rfl, rfl⟩
      have hcable : Upholds Scanning (Act.require (decide (target.cableSerial.getD args.cableSerial ≠ []) ||
          decide (target.cableCtx.getD [] ≠ [])) .noCable : Prog Unit) w₄ fun _ w' =>
            w' = w₄ ∧ (target.cableSerial.getD args.cableSerial ≠ [] ∨ target.cableCtx.getD [] ≠ []) :=
        Upholds.require h₃ fun hc => ⟨rfl, by simpa using hc⟩
      refine Upholds.bind hcable ?_
      rintro _ w₅ _ ⟨rfl, hknown⟩
      refine Upholds.pure h₃ ⟨h₃, ?_, hknown, requested_of_scan hl hone.symm hid' hindex⟩
      rintro rfl
      have hmem : target ∈ asked tcl args l := by rw [← hone]; simp
      exact l.numbered target (List.mem_of_mem_filter hmem) hid'
  · exact Upholds.raise h₂

/-! ### A program that is never cut off -/

theorem request_uncut {α : Type} (effect : Answer → Machine → Machine) (value : Answer → α) :
    Uncut (request effect value) := by
  intro w
  unfold request
  rcases w.draw with ⟨a, w'⟩
  cases hf : a.fails <;> simp [hf]

theorem caught_uncut {α : Type} {m : Prog α} (h : Uncut m) : Uncut (caught m) := by
  unfold caught
  apply Uncut.attempt
  · exact h.bind fun a => Uncut.pure _
  · exact fun e => Uncut.pure _

theorem item_uncut (v : Option Text) : Uncut (item v) := by
  cases v with
  | some x => exact Uncut.pure x
  | none => exact Uncut.raise Error.missingKey

section Uncut

variable (tcl : Tcl) (b : Bound)

theorem selectLoop_uncut (pattern : Text) (scope : Scope) (attempts found : ℕ) (observed : List Target)
    (queryError : Option Error) : Uncut (selectLoop tcl b pattern scope attempts found observed queryError) := by
  induction attempts generalizing found observed queryError with
  | zero => exact Uncut.raise _
  | succ attempts ih =>
    unfold selectLoop
    refine (caught_uncut (request_uncut _ _)).bind fun answer => ?_
    cases answer with
    | error e => exact ih _ _ _
    | ok l =>
      simp only
      split
      · refine (item_uncut _).bind fun id => ?_
        refine (caught_uncut (request_uncut _ _)).bind fun ok => ?_
        cases ok with
        | ok u => exact Uncut.pure _
        | error e => exact ih _ _ _
      · exact ih _ _ _

theorem selectTarget_uncut (pattern : Text) (scope : Scope) : Uncut (selectTarget tcl b pattern scope) :=
  selectLoop_uncut tcl b pattern scope _ _ _ _

theorem command_uncut (c : Command) : Uncut (command c) := request_uncut _ _

theorem downloadLoop_uncut (pattern : Text) (scope : Scope) (image : Image) (halt : Bool) (load : Command)
    (attempts : ℕ) (last : Option Error) :
    Uncut (downloadLoop tcl b pattern scope image halt load attempts last) := by
  induction attempts generalizing last with
  | zero => exact Uncut.raise _
  | succ attempts ih =>
    rw [downloadLoop_succ]
    refine (selectTarget_uncut tcl b _ _).bind fun _ => ?_
    have hload : Uncut (caught (command load) >>=
        orRetry fun e => downloadLoop tcl b pattern scope image halt load attempts (some e)) := by
      refine (caught_uncut (command_uncut load)).bind fun result => ?_
      cases result with
      | ok u => exact Uncut.pure _
      | error e => exact ih _
    cases halt with
    | false => exact hload
    | true => exact (caught_uncut (command_uncut _)).bind fun _ => hload

theorem selectAnd_uncut (pattern : Text) (scope : Scope) (c : Command) :
    Uncut (selectAnd tcl b pattern scope c) :=
  (selectTarget_uncut tcl b _ _).bind fun _ => command_uncut c

theorem fsblTarget_uncut (pattern : Text) : Uncut (fsblTarget tcl b pattern) := by
  unfold fsblTarget
  refine (request_uncut _ _).bind fun l => ?_
  split
  · exact Uncut.pure _
  · exact Uncut.raise _

theorem runFsblToExit_uncut : Uncut (runFsblToExit tcl b) := by
  have hread : Uncut read := request_uncut _ _
  have hstatus : ∀ psu : Target, Uncut (do
      let psuId ← item psu.targetId
      selectId psuId
      let value ← read
      Act.require (value == some 0) Error.fsblStatus) := by
    intro psu
    refine (item_uncut _).bind fun psuId => ?_
    refine Uncut.bind (request_uncut _ _ : Uncut (selectId psuId)) fun _ => ?_
    exact hread.bind fun value => Uncut.require _ _
  have hsuccess : Uncut (requireFsblSuccess tcl b) := by
    unfold requireFsblSuccess
    refine (fsblTarget_uncut tcl b _).bind fun core => ?_
    refine (fsblTarget_uncut tcl b _).bind fun psu => ?_
    refine (Uncut.require _ _).bind fun _ => ?_
    refine (item_uncut _).bind fun coreId => ?_
    refine (caught_uncut (hstatus psu)).bind fun status => ?_
    refine (caught_uncut (request_uncut _ _ : Uncut (selectId coreId))).bind fun restore => ?_
    cases status with
    | ok u => exact Uncut.lift _
    | error e => exact Uncut.raise _
  have hrun : ∀ address, Uncut (runToBreakpoint tcl b address) := by
    intro address
    unfold runToBreakpoint
    refine (command_uncut _).bind fun _ => ?_
    refine hread.bind fun pc => ?_
    exact (Uncut.require _ _).bind fun _ => hsuccess
  unfold runFsblToExit
  refine hread.bind fun symbol => ?_
  cases symbol with
  | none => exact Uncut.raise _
  | some address =>
    refine (Uncut.require _ _).bind fun _ => ?_
    refine (command_uncut _).bind fun _ => ?_
    refine (caught_uncut (hrun address)).bind fun status => ?_
    refine (caught_uncut hread).bind fun cleanup => ?_
    cases status with
    | error e => exact Uncut.raise _
    | ok u => exact (Uncut.lift _).bind fun _ => Uncut.pure _

theorem boot_uncut (config : Config) : Uncut (boot tcl config b) := by
  have hreconnect : Uncut reconnect :=
    Uncut.bind (request_uncut _ _ : Uncut disconnect) fun _ => (request_uncut _ _ : Uncut connect)
  have hpulse : Uncut (pulseBoardReset tcl config b) :=
    (selectTarget_uncut tcl b _ _).bind fun _ => (command_uncut _).attempt fun _ => Uncut.raise _
  have hswitch : Uncut (switchToJtagBootMode tcl b) :=
    (selectTarget_uncut tcl b _ _).bind fun _ => (command_uncut _).bind fun _ => (command_uncut _).bind fun _ =>
      command_uncut _
  have hforce : Uncut (forceBootMode tcl config b) := by
    unfold forceBootMode
    split
    · exact hreconnect.bind fun _ => hswitch.attempt fun _ => Uncut.raise _
    · exact Uncut.pure _
  have henvironment : Uncut (downloadEnvOverride tcl b 0x1ff00100) :=
    Uncut.bind (request_uncut _ _ : Uncut read) fun _ => downloadLoop_uncut tcl b _ _ _ _ _ _ _
  unfold boot
  refine hpulse.bind fun _ => hforce.bind fun _ => hreconnect.bind fun _ => ?_
  refine (selectAnd_uncut tcl b _ _ _).bind fun _ => (downloadLoop_uncut tcl b _ _ _ _ _ _ _).bind fun _ => ?_
  refine (selectAnd_uncut tcl b _ _ _).bind fun _ => (selectAnd_uncut tcl b _ _ _).bind fun _ => ?_
  refine (downloadLoop_uncut tcl b _ _ _ _ _ _ _).bind fun _ => (selectTarget_uncut tcl b _ _).bind fun _ => ?_
  refine (runFsblToExit_uncut tcl b).bind fun _ => (downloadLoop_uncut tcl b _ _ _ _ _ _ _).bind fun _ => ?_
  refine (selectAnd_uncut tcl b _ _ _).bind fun _ => (selectAnd_uncut tcl b _ _ _).bind fun _ => ?_
  refine (downloadLoop_uncut tcl b _ _ _ _ _ _ _).bind fun _ => henvironment.bind fun _ => ?_
  refine (command_uncut _).bind fun _ => (command_uncut _).bind fun _ => ?_
  exact (downloadLoop_uncut tcl b _ _ _ _ _ _ _).bind fun _ => selectAnd_uncut tcl b _ _ _

end Uncut

/-! ### A whole run -/

theorem station_of_bind {tcl : Tcl} {config : Config} {args : Arguments} {w w₁ : Machine} {b : Bound}
    (h : bind tcl args w = (.ret b, w₁)) : station tcl config args w = boot tcl config b w₁ :=
  Act.bind_of_ret h

/-- A station run touches only the board it has bound, which is the one the arguments ask for, and a
selection that finds no unique target in twenty listings is its end. -/
theorem station_keeps_to_board (tcl : Tcl) (config : Config) (args : Arguments) (hid : args.targetId ≠ [])
    (answers : List Answer) :
    (∀ c current, Event.command c current ∈ (station tcl config args { answers := answers }).2.trace →
      ∃ b w₁, bind tcl args { answers := answers } = (.ret b, w₁) ∧
        (b.cableSerial ≠ [] ∨ b.cableCtx ≠ []) ∧ Requested tcl args b w₁.trace ∧ Aimed tcl b current) ∧
    ∀ b w₁, bind tcl args { answers := answers } = (.ret b, w₁) → ∀ before window after,
      (station tcl config args { answers := answers }).2.trace = before ++ window ++ after →
      window.length = 20 → (∀ e ∈ window, misses tcl b e = true) →
        after = [] ∧ ∃ e, (station tcl config args { answers := answers }).1 = .raise e := by
  have hscanning : Scanning { answers := answers } := by
    intro e he
    cases he
  have hbind := bind_upholds tcl args hid hscanning
  constructor
  · intro c current hc
    cases hb : bind tcl args { answers := answers } with
    | mk o w₁ =>
      cases o with
      | ret b =>
        obtain ⟨hw₁, htarget, hcable, hrequested⟩ := hbind.post b w₁ hb
        have hboot := boot_upholds htarget config (hw₁.ready tcl b)
        rw [station_of_bind hb] at hc
        exact ⟨b, w₁, rfl, hcable, hrequested, hboot.kept.safe c current hc⟩
      | raise e =>
        have hkept := hbind.kept
        rw [station, Act.bind_of_raise hb] at hc
        rw [hb] at hkept
        rcases hkept _ hc with he | ⟨result, he⟩ <;> cases he
      | crash =>
        have hkept := hbind.kept
        rw [station, Act.bind_of_crash hb] at hc
        rw [hb] at hkept
        rcases hkept _ hc with he | ⟨result, he⟩ <;> cases he
  · intro b w₁ hb before window after ht hlength hmiss
    obtain ⟨hw₁, htarget, -, -⟩ := hbind.post b w₁ hb
    have hboot := boot_upholds htarget config (hw₁.ready tcl b)
    rw [station_of_bind hb] at ht ⊢
    have hend := hboot.kept.ended.window ht hmiss hlength
    refine ⟨hend, ?_⟩
    have huncut := boot_uncut tcl b config w₁
    rcases hr : boot tcl config b w₁ with ⟨o, w₂⟩
    rw [hr] at ht huncut
    cases o with
    | raise e => exact ⟨e, rfl⟩
    | crash => exact absurd rfl huncut
    | ret u =>
      -- a run that returns has a current target behind its last miss
      have hready := (hboot.post u w₂ hr).1
      have hbounded := hready.bounded
      rw [ht, hend, List.append_nil, streak_window hmiss, hlength] at hbounded
      omega

/-! ### Two boards on one server -/

namespace Sample

def tcl : Tcl := ⟨fun c => if 65 ≤ c ∧ c ≤ 90 then c + 32 else c⟩

def target (name : Text) (id : ℕ) (serial : Text) (index : ℕ) : Target :=
  ⟨some name, some [48 + id], some serial, some (text "jsn-" ++ serial), some [48 + index]⟩

def board (serial : Text) (first : ℕ) : List Target :=
  [target (text "PSU") first serial 0, target (text "Cortex-A53 #0") (first + 1) serial 0,
    target (text "MicroBlaze PMU") (first + 2) serial 1]

def listing : Listing where
  targets := board (text "A") 1 ++ board (text "B") 4
  numbered := by decide
  distinct := by decide

/-- The second board, by its cable. -/
def args : Arguments := ⟨text "4", text "B", []⟩

/-- Every number read is the address of the exit but for the status of the FSBL. -/
def answers : List Answer :=
  List.replicate 33 { listing := listing, number := some 0xfffc0c08 } ++ [{ listing := listing, number := some 0 }] ++
    List.replicate 52 { listing := listing, number := some 0xfffc0c08 }

def isCommand : Event → Bool
  | .command .. => true
  | _ => false

end Sample

theorem station_keeps_to_board_sample :
    ((station Sample.tcl ⟨false, false⟩ Sample.args { answers := Sample.answers }).2.trace.filter
        Sample.isCommand).length = 21 ∧
      ∀ c current, Event.command c current ∈
        (station Sample.tcl ⟨false, false⟩ Sample.args { answers := Sample.answers }).2.trace →
        ∃ b w₁, bind Sample.tcl Sample.args { answers := Sample.answers } = (.ret b, w₁) ∧
          (b.cableSerial ≠ [] ∨ b.cableCtx ≠ []) ∧ Requested Sample.tcl Sample.args b w₁.trace ∧
          Aimed Sample.tcl b current :=
  ⟨by decide +kernel, (station_keeps_to_board Sample.tcl ⟨false, false⟩ Sample.args (by decide) Sample.answers).1⟩

end Monutchee.Jtag
