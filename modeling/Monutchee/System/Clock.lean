import Monutchee.System.Native

/-!
# One clock discipline, with the acknowledged servers

Which units are active after `Native::preferences` has stopped and started what `clockUnits`
names, and which server list the NTP units have read after a series of calls in which any
step may have raised.
-/

namespace Monutchee.System.Native
open Lib Lib.Act Validation

/-! ### Loops that collect units -/

/-- A loop that adds to a list what each round names. -/
theorem foldlM_mem {α : Type} {f : List Bytes → α → Except Error (List Bytes)}
    {P : α → Bytes → Prop}
    (hf : ∀ all x all', f all x = .ok all' → ∀ u, u ∈ all' ↔ u ∈ all ∨ P x u)
    (xs : List α) (all all' : List Bytes) (h : xs.foldlM f all = .ok all') (u : Bytes) :
    u ∈ all' ↔ u ∈ all ∨ ∃ x ∈ xs, P x u := by
  induction xs generalizing all with
  | nil =>
    rw [List.foldlM_nil] at h
    injection h with h
    subst h
    simp
  | cons x xs ih =>
    rw [List.foldlM_cons, bind_ok] at h
    obtain ⟨all₁, h₁, h₂⟩ := h
    rw [ih all₁ h₂, hf all x all₁ h₁ u]
    simp [or_assoc]

theorem mapM_mem {α : Type} {g : α → Except Error Bytes} (xs : List α) (l : List Bytes)
    (h : xs.mapM g = .ok l) (u : Bytes) : u ∈ l ↔ ∃ x ∈ xs, g x = .ok u := by
  induction xs generalizing l with
  | nil =>
    rw [List.mapM_nil] at h
    injection h with h
    subst h
    simp
  | cons x xs ih =>
    rw [List.mapM_cons, bind_ok] at h
    obtain ⟨v, hv, h⟩ := h
    rw [bind_ok] at h
    obtain ⟨l₁, h₁, h₂⟩ := h
    injection h₂ with h₂
    subst h₂
    simp [ih l₁ h₁, hv, eq_comm]

theorem addInstances_mem {templates all all' : List Bytes} {port : Bytes}
    (h : addInstances templates all port = .ok all') (u : Bytes) :
    u ∈ all' ↔ u ∈ all ∨ ∃ template ∈ templates, unitInstance template port = .ok u := by
  refine foldlM_mem (P := fun template u => unitInstance template port = .ok u) ?_ templates all all' h u
  intro all template all' hr v
  rw [bind_ok] at hr
  obtain ⟨name, hn, hr⟩ := hr
  injection hr with hr
  rw [hn]
  subst hr
  by_cases hm : all.contains name = true
  · rw [if_pos hm]
    rw [List.contains_iff_mem] at hm
    constructor
    · exact .inl
    · rintro (hv | hv)
      · exact hv
      · injection hv with hv
        rwa [← hv]
  · rw [if_neg hm]
    simp [eq_comm]

/-! ### What clockUnits returns -/

/-- An instance of a PTP template for a managed interface. -/
def IsInstance (p : Product) (u : Bytes) : Prop :=
  ∃ port ∈ p.interfaceNames, ∃ template ∈ p.ptpUnitTemplates, unitInstance template port = .ok u

/-- The units that steer the clock in some mode. -/
def IsManaged (p : Product) (u : Bytes) : Prop :=
  u ∈ p.ptpUnits ∨ IsInstance p u ∨ u ∈ p.irigUnits ∨ u ∈ p.ntpUnits

/-- The units of the selected mode. -/
def IsSelected (p : Product) (t : TimePreferences) (u : Bytes) : Prop :=
  (t.synchronization = ascii "ntp" ∧ u ∈ p.ntpUnits) ∨
    (t.synchronization = ascii "irig" ∧ u ∈ p.irigUnits) ∨
    (t.synchronization = ascii "ptp" ∧
      ∃ template ∈ p.ptpUnitTemplates, unitInstance template t.ptpInterface = .ok u)

theorem selectedUnits_mem {p : Product} {t : TimePreferences} {l : List Bytes}
    (h : selectedUnits p t = .ok l) (u : Bytes) :
    u ∈ l ↔ (t.synchronization = ascii "irig" ∧ u ∈ p.irigUnits) ∨
      (t.synchronization = ascii "ptp" ∧
        ∃ template ∈ p.ptpUnitTemplates, unitInstance template t.ptpInterface = .ok u) := by
  have hne : ascii "ptp" ≠ ascii "irig" := by decide
  unfold selectedUnits at h
  by_cases hi : t.synchronization = ascii "irig"
  · rw [if_pos hi] at h
    split at h
    · simp at h
    · injection h with h
      subst h
      simp [hi, hne.symm]
  · rw [if_neg hi] at h
    by_cases hp : t.synchronization = ascii "ptp"
    · rw [if_pos hp, then_ok] at h
      rw [mapM_mem _ _ h.2 u]
      simp [hp, hne]
    · rw [if_neg hp] at h
      injection h with h
      subst h
      simp [hi, hp]

/-- A selected PTP unit is the instance of a managed interface. -/
theorem selectedUnits_managed {p : Product} {t : TimePreferences} {l : List Bytes}
    (h : selectedUnits p t = .ok l) {u : Bytes} (hu : u ∈ l) : IsInstance p u ∨ u ∈ p.irigUnits := by
  rcases (selectedUnits_mem h u).mp hu with ⟨_, hu⟩ | ⟨hp, template, ht, hi⟩
  · exact .inr hu
  · have hne : t.synchronization ≠ ascii "irig" := by
      rw [hp]
      decide
    unfold selectedUnits at h
    rw [if_neg hne, if_pos hp, then_ok, check_ok] at h
    have hc : t.ptpInterface ∈ p.interfaceNames := by
      have h₁ := h.1
      rw [Bool.and_eq_true, List.contains_iff_mem] at h₁
      exact h₁.1
    exact .inl ⟨t.ptpInterface, hc, template, ht, hi⟩

/-- What `clockUnits` stops and starts, as sets. -/
structure UnitsSpec (p : Product) (t : TimePreferences) (r : ClockUnits) : Prop where
  start : ∀ u, u ∈ r.start ↔ IsSelected p t u
  stop : ∀ u, u ∈ r.stop ↔
    ((u ∈ p.ptpUnits ∨ IsInstance p u ∨ u ∈ p.irigUnits) ∧
      (t.synchronization = ascii "ntp" ∨ u ∉ r.start)) ∨
    (t.synchronization ≠ ascii "ntp" ∧ u ∈ p.ntpUnits)
  managed : ∀ u ∈ r.start, IsManaged p u

theorem clockUnits_spec {p : Product} {t : TimePreferences} {r : ClockUnits}
    (h : clockUnits p t = .ok r) : UnitsSpec p t r := by
  unfold clockUnits at h
  rw [bind_ok] at h
  obtain ⟨selected, hs, h⟩ := h
  rw [bind_ok] at h
  obtain ⟨instances, hi, h⟩ := h
  have hall : ∀ u, u ∈ instances ↔ u ∈ p.ptpUnits ∨ IsInstance p u :=
    foldlM_mem (fun _ _ _ h' => addInstances_mem h') _ _ _ hi
  have hsel := selectedUnits_mem hs
  dsimp only at h
  by_cases hn : t.synchronization = ascii "ntp"
  · rw [if_neg (by simp [hn])] at h
    injection h with h
    subst h
    have hempty : ∀ u, u ∉ selected := by
      intro u hu
      rcases (hsel u).mp hu with ⟨hm, _⟩ | ⟨hm, _⟩
      · rw [hn] at hm
        revert hm
        decide
      · rw [hn] at hm
        revert hm
        decide
    refine ⟨?_, ?_, ?_⟩
    · intro u
      rw [IsSelected, hn]
      simp [show ascii "ntp" ≠ ascii "irig" by decide, show ascii "ntp" ≠ ascii "ptp" by decide]
    · intro u
      simp [hall, hn, hempty u]
      tauto
    · intro u hu
      exact .inr (.inr (.inr hu))
  · rw [if_pos hn] at h
    injection h with h
    subst h
    refine ⟨?_, ?_, ?_⟩
    · intro u
      rw [IsSelected, hsel u]
      simp [hn]
    · intro u
      simp [hall, hn]
      tauto
    · intro u hu
      rcases selectedUnits_managed hs hu with hu | hu
      · exact .inr (.inl hu)
      · exact .inr (.inr (.inl hu))

/-! ### Runs of unit calls that succeed -/

theorem active_stop (names : List Bytes) (m : Machine) (u : Bytes) :
    u ∈ (names.foldl Machine.stop m).active ↔ u ∈ m.active ∧ u ∉ names := by
  induction names generalizing m with
  | nil => simp
  | cons name names ih =>
    rw [List.foldl_cons, ih]
    simp only [Machine.stop, Finset.mem_erase, List.mem_cons, not_or]
    tauto

theorem active_start (names : List Bytes) (m : Machine) (u : Bytes) :
    u ∈ (names.foldl Machine.start m).active ↔ u ∈ m.active ∨ u ∈ names := by
  induction names generalizing m with
  | nil => simp
  | cons name names ih =>
    have hs : u ∈ (m.start name).active ↔ u ∈ m.active ∨ u = name := by
      unfold Machine.start
      split
      · rename_i hm
        constructor
        · exact .inl
        · rintro (hu | rfl)
          · exact hu
          · exact hm
      · simp [or_comm]
    rw [List.foldl_cons, ih, hs]
    simp [or_assoc]

/-- A loop over units in which every call completes. -/
theorem units_completed (start : Bool) (names : List Bytes) (m : Machine) :
    units (fun _ => .none) start names m =
      (.ret (), names.foldl (if start then Machine.start else Machine.stop) m) := by
  have hgen : ∀ (names : List Bytes) (i : ℕ) (m : Machine),
      each (fun p => unit Fault.none p.1 start) (names.zipIdx i) m =
        (.ret (), names.foldl (if start then Machine.start else Machine.stop) m) := by
    intro names
    induction names with
    | nil => exact fun i m => rfl
    | cons name names ih =>
      intro i m
      rw [List.zipIdx_cons, List.foldl_cons]
      have hu : unit Fault.none name start m =
          (.ret (), (if start then Machine.start else Machine.stop) m name) := by
        cases start with
        | true => rfl
        | false => rfl
      exact (bind_of_ret hu).trans (ih (i + 1) _)
  exact hgen names 0 m

/-- The units that `preferences` stops: those of clockUnits, and the NTP units again when
their server list changed. -/
def stops (p : Product) (t : TimePreferences) (changed : ClockPolicyChanges) (r : ClockUnits) :
    List Bytes :=
  r.stop ++ if changed.servers ∧ t.synchronization = ascii "ntp" then p.ntpUnits else []

theorem reloadNetwork_completed (n : Network) (m : Machine) :
    reloadNetwork n (fun _ => .none) m = (.ret (), m) := by
  have hgen : ∀ (is : List ℕ) (m : Machine),
      each (fun _ => step Fault.none id) is m = (.ret (), m) := by
    intro is
    induction is with
    | nil => exact fun _ => rfl
    | cons i is ih => exact fun m => (bind_of_ret rfl).trans (ih m)
  exact (bind_of_ret rfl).trans (hgen _ m)

theorem disciplines_completed (p : Product) (c : Configuration) (changed : ClockPolicyChanges)
    (r : ClockUnits) (m : Machine) :
    disciplines p c changed r (fun _ => .none) m =
      (.ret (), r.start.foldl Machine.start ((stops p c.time changed r).foldl Machine.stop m)) := by
  unfold disciplines
  rw [bind_of_ret (units_completed false r.stop m)]
  have hrestop : restopNtp p c.time changed (fun _ => .none)
      (r.stop.foldl Machine.stop m) = (.ret (), (stops p c.time changed r).foldl Machine.stop m) := by
    unfold restopNtp stops
    by_cases hc : changed.servers ∧ c.time.synchronization = ascii "ntp"
    · rw [if_pos hc, if_pos hc, List.foldl_append]
      exact units_completed false p.ntpUnits _
    · rw [if_neg hc, if_neg hc, List.append_nil]
      rfl
  have hreload : ∀ m, reloadChanged c.system.network changed (fun _ => .none) m = (.ret (), m) := by
    intro m
    unfold reloadChanged
    split
    · exact reloadNetwork_completed _ m
    · rfl
  refine (bind_of_ret hrestop).trans ?_
  refine (bind_of_ret (hreload _)).trans ?_
  exact units_completed true r.start _

/-- A managed unit that is active once everything is stopped belongs to the selected mode. -/
theorem active_after_stops {p : Product} {t : TimePreferences} {r : ClockUnits}
    (hr : UnitsSpec p t r) (changed : ClockPolicyChanges) (m : Machine) {u : Bytes}
    (hm : IsManaged p u) (hu : u ∈ ((stops p t changed r).foldl Machine.stop m).active) :
    u ∈ r.start := by
  rw [active_stop] at hu
  have hstop : u ∉ r.stop := fun h => hu.2 (List.mem_append_left _ h)
  rw [hr.stop u] at hstop
  by_cases hn : t.synchronization = ascii "ntp"
  · have hall : ¬ (u ∈ p.ptpUnits ∨ IsInstance p u ∨ u ∈ p.irigUnits) :=
      fun h => hstop (.inl ⟨h, .inl hn⟩)
    rw [hr.start u]
    refine .inl ⟨hn, ?_⟩
    rcases hm with h | h | h | h
    · exact absurd (.inl h) hall
    · exact absurd (.inr (.inl h)) hall
    · exact absurd (.inr (.inr h)) hall
    · exact h
  · by_contra hs
    apply hstop
    rcases hm with h | h | h | h
    · exact .inl ⟨.inl h, .inr hs⟩
    · exact .inl ⟨.inr (.inl h), .inr hs⟩
    · exact .inl ⟨.inr (.inr h), .inr hs⟩
    · exact .inr ⟨hn, h⟩

/-- Exactly one clock discipline: when the unit calls of `preferences` complete, the managed
units that are active are those that `clockUnits` starts, which are the units of the selected
mode, and while units are started no other managed unit is active. -/
theorem one_discipline (p : Product) (c : Configuration) (r : ClockUnits)
    (changed : ClockPolicyChanges) (m : Machine) (h : clockUnits p c.time = .ok r) :
    (∃ m', disciplines p c changed r (fun _ => .none) m = (.ret (), m') ∧
      ∀ u, (IsManaged p u ∧ u ∈ m'.active) ↔ u ∈ r.start) ∧
    (∀ u, u ∈ r.start ↔ IsSelected p c.time u) ∧
    (∀ done u rest, r.start = done ++ u :: rest →
      ∀ v, IsManaged p v →
        v ∈ (done.foldl Machine.start ((stops p c.time changed r).foldl Machine.stop m)).active →
        v ∈ r.start) := by
  have hr := clockUnits_spec h
  refine ⟨⟨_, disciplines_completed p c changed r m, ?_⟩, hr.start, ?_⟩
  · intro u
    rw [active_start]
    constructor
    · rintro ⟨hm, hu | hu⟩
      · exact active_after_stops hr changed m hm hu
      · exact hu
    · intro hu
      exact ⟨hr.managed u hu, .inr hu⟩
  · intro done u rest hstart v hm hv
    rw [active_start] at hv
    rcases hv with hv | hv
    · exact active_after_stops hr changed m hm hv
    · rw [hstart]
      exact List.mem_append_left _ hv

namespace Fixture

/-- The product of ptp_test.cpp. -/
def product : Product where
  interfaces := [{ name := ascii "lan7" }, { name := ascii "enp2s0" }]
  ptpUnitTemplates := [ascii "ptp4l@.service", ascii "phc2sys@.service"]

def ptp : Configuration :=
  { time := { synchronization := ascii "ptp", ptpInterface := ascii "enp2s0" } }

def ptpUnits : ClockUnits where
  stop := [ascii "phc2sys@lan7.service", ascii "ptp4l@lan7.service",
    ascii "systemd-timesyncd.service"]
  start := [ascii "ptp4l@enp2s0.service", ascii "phc2sys@enp2s0.service"]

end Fixture

theorem one_discipline_ptp :
    clockUnits Fixture.product Fixture.ptp.time = .ok Fixture.ptpUnits ∧
      ∃ m', disciplines Fixture.product Fixture.ptp ⟨true, false⟩ Fixture.ptpUnits (fun _ => .none)
        { active := {ascii "systemd-timesyncd.service", ascii "ptp4l@lan7.service"} } =
          (.ret (), m') ∧
        ∀ u, (IsManaged Fixture.product u ∧ u ∈ m'.active) ↔ u ∈ Fixture.ptpUnits.start := by
  have h : clockUnits Fixture.product Fixture.ptp.time = .ok Fixture.ptpUnits := by decide
  exact ⟨h, (one_discipline _ _ _ ⟨true, false⟩ _ h).1⟩

/-! ### The server list that the NTP units have read -/

/-- What the units have read is the drop-in as it stands. -/
def Loaded (p : Product) (m : Machine) : Prop :=
  ∀ u ∈ p.ntpUnits, u ∈ m.active → m.loaded u = some (m.changes, m.dropIn)

/-- The invariant of the steps that leave the drop-in alone. -/
structure Reads (p : Product) (n : ℕ) (text : Option Bytes) (m : Machine) : Prop where
  changes : m.changes = n
  dropIn : m.dropIn = text
  loaded : ∀ u ∈ p.ntpUnits, u ∈ m.active → m.loaded u = some (n, text)

variable {p : Product} {n : ℕ} {text : Option Bytes} {m : Machine}

theorem reads_of_loaded (h : Loaded p m) : Reads p m.changes m.dropIn m := ⟨rfl, rfl, h⟩

theorem Reads.current (h : Reads p n text m) : Loaded p m := by
  intro u hu ha
  rw [h.changes, h.dropIn]
  exact h.loaded u hu ha

theorem Reads.stop (h : Reads p n text m) (name : Bytes) : Reads p n text (m.stop name) := by
  refine ⟨h.changes, h.dropIn, ?_⟩
  intro u hu ha
  exact h.loaded u hu (Finset.mem_of_mem_erase ha)

theorem Reads.start (h : Reads p n text m) (name : Bytes) : Reads p n text (m.start name) := by
  unfold Machine.start
  split
  · exact h
  · refine ⟨h.changes, h.dropIn, ?_⟩
    intro u hu ha
    dsimp only at ha ⊢
    by_cases hn : u = name
    · subst hn
      rw [Function.update_self, h.changes, h.dropIn]
    · rw [Function.update_of_ne hn]
      exact h.loaded u hu (Finset.mem_of_mem_insert_of_ne ha hn)

/-- A step whose work keeps the invariant, whether it raises or not. -/
theorem step_keeps {I : Machine → Prop} {g : Machine → Machine} (f : Fault) (hm : I m)
    (hg : I (g m)) : Upholds I (step f g) m fun _ m' => m' = g m ∧ f = .none := by
  cases f with
  | none => exact ⟨hg, fun _ _ h => ⟨(congrArg Prod.snd h).symm, rfl⟩⟩
  | early e => exact ⟨hm, fun _ _ h => by simp [step] at h⟩
  | late e => exact ⟨hg, fun _ _ h => by simp [step] at h⟩

theorem idle_keeps {I : Machine → Prop} (f : Fault) (hm : I m) :
    Upholds I (step f id) m fun _ m' => m' = m ∧ f = .none := step_keeps f hm hm

theorem unit_keeps (f : Fault) (name : Bytes) (start : Bool) (hm : Reads p n text m) :
    Upholds (Reads p n text) (unit f name start) m fun _ _ => True := by
  cases start with
  | true => exact (step_keeps f hm (hm.start name)).mono fun _ _ _ _ => trivial
  | false => exact (step_keeps f hm (hm.stop name)).mono fun _ _ _ _ => trivial

theorem units_keeps (faults : ℕ → Fault) (start : Bool) (names : List Bytes)
    (hm : Reads p n text m) : Upholds (Reads p n text) (units faults start names) m fun _ _ => True := by
  apply Upholds.each hm
  intro b _ m hm
  exact unit_keeps _ _ _ hm

theorem reloadChanged_keeps {I : Machine → Prop} (net : Network) (changed : ClockPolicyChanges)
    (faults : Faults) (hm : I m) : Upholds I (reloadChanged net changed faults) m fun _ _ => True := by
  unfold reloadChanged
  split
  · apply Upholds.bind (idle_keeps _ hm)
    intro _ m' hm' _
    apply Upholds.each hm'
    intro i _ m'' hm''
    exact (idle_keeps _ hm'').mono fun _ _ _ _ => trivial
  · exact Upholds.pure hm trivial

/-- Every unit of a list that was started has read the drop-in as it stands. -/
structure Served (p : Product) (n : ℕ) (text : Option Bytes) (names : List Bytes) (m : Machine) :
    Prop where
  reads : Reads p n text m
  loaded : ∀ u ∈ p.ntpUnits, u ∈ names → m.loaded u = some (n, text)

theorem Served.start {names : List Bytes} (h : Served p n text names m) (name : Bytes) :
    Served p n text (names ++ [name]) (m.start name) := by
  have hr := h.reads.start name
  refine ⟨hr, ?_⟩
  intro u hu hn
  by_cases ha : u ∈ (m.start name).active
  · exact hr.loaded u hu ha
  · have hne : u ≠ name := by
      intro he
      apply ha
      rw [he]
      have := active_start [name] m name
      simpa using this
    have hmem : u ∈ names := by simpa [hne] using hn
    have hsame : (m.start name).loaded u = m.loaded u := by
      unfold Machine.start
      split
      · rfl
      · exact Function.update_of_ne hne _ _
    rw [hsame]
    exact h.loaded u hu hmem

theorem starts_serve (faults : ℕ → Fault) (names : List Bytes) (hm : Reads p n text m) :
    Upholds (Reads p n text) (units faults true names) m fun _ m' => Served p n text names m' := by
  have hloop := Upholds.each_mem (I := Reads p n text)
    (f := fun (x : Bytes × ℕ) => unit (faults x.2) x.1 true)
    (fun done m => Served p n text (done.map (·.1)) m)
    (by
      intro done b m (_ : b ∈ names.zipIdx) hm hs
      refine (step_keeps (faults b.2) hm (hm.start b.1)).mono ?_
      intro _ m' _ he
      rw [he.1, List.map_append]
      exact hs.start b.1)
    [] hm ⟨hm, by simp⟩
  refine hloop.mono ?_
  intro _ m' _ hs
  simpa using hs

theorem Served.stop {names : List Bytes} (h : Served p n text names m) (name : Bytes) :
    Served p n text names (m.stop name) := ⟨h.reads.stop name, h.loaded⟩

theorem Served.again {names : List Bytes} (h : Served p n text names m) (name : Bytes) :
    Served p n text names (m.start name) := by
  have hs := h.start name
  exact ⟨hs.reads, fun u hu hn => hs.loaded u hu (List.mem_append_left _ hn)⟩

/-- The SSH part may stop or start any unit of the same name. -/
theorem sshPolicy_serve {names : List Bytes} (enabled : Bool) (faults : Faults)
    (hm : Served p n text names m) :
    Upholds (Served p n text names) (sshPolicy p enabled faults) m fun _ _ => True := by
  have hunit : ∀ (f : Fault) (name : Bytes) (start : Bool) (m : Machine),
      Served p n text names m → Upholds (Served p n text names) (unit f name start) m fun _ _ => True := by
    intro f name start m hm
    cases start with
    | true => exact (step_keeps f hm (hm.again name)).mono fun _ _ _ _ => trivial
    | false => exact (step_keeps f hm (hm.stop name)).mono fun _ _ _ _ => trivial
  apply Upholds.bind (idle_keeps _ hm)
  intro _ m₁ hm₁ _
  apply Upholds.bind (hunit _ _ _ m₁ hm₁)
  intro _ m₂ hm₂ _
  split
  · exact Upholds.pure hm₂ trivial
  · exact hunit _ _ _ m₂ hm₂

/-! ### Before and inside the window

The drop-in changes in the middle of a call. Until then the call leaves the machine as it
was; from then on the NTP units that are active hold the old list, until they are stopped. -/

/-- The steps of a call before it looks at the drop-in. -/
def openingSteps (p : Product) : List Step :=
  (if p.runtimeEtcDirectory.isEmpty then [.timezone, .hostname, .transient]
    else [.timezone, .hostname]) ++ [.marker 0, .marker 1, .marker 2]

def opening (p : Product) (c : Configuration) (faults : Faults) : Native Unit := do
  identity p c faults
  lift (validate { time := c.time })
  lift (checkIrig p c.time)
  each (fun i => step (faults (.marker i)) id) [0, 1, 2]

/-- The rest of a call once the drop-in is in place. -/
def remainder (p : Product) (c : Configuration) (servers : Bool) (faults : Faults) :
    Native Unit := do
  let network ← writePorts (fun i => faults (.port i)) c.time 0 p.interfaceNames
  let r ← lift (clockUnits p c.time)
  units (fun i => faults (.stop i)) false r.stop
  restopNtp p c.time ⟨servers, network⟩ faults
  reloadChanged c.system.network ⟨servers, network⟩ faults
  units (fun i => faults (.start i)) true r.start
  sshPolicy p c.system.sshEnabled faults

theorem preferences_flat (c : Configuration) (faults : Faults) :
    preferences p c faults =
      (opening p c faults >>= fun _ =>
        writeServers (faults .servers) c.time >>= fun servers => remainder p c servers faults) := by
  simp only [preferences, opening, writeClockPolicy, disciplines, remainder, bind_assoc, Act.pure_bind]

theorem opening_same (c : Configuration) (faults : Faults) :
    Upholds (· = m) (opening p c faults) m fun _ _ => ∀ s ∈ openingSteps p, faults s = .none := by
  have hstep : ∀ (f : Fault) (m' : Machine), m' = m →
      Upholds (· = m) (step f id) m' fun _ _ => f = .none :=
    fun f m' h => (idle_keeps (I := (· = m)) f h).mono fun _ _ _ he => he.2
  have hidentity : Upholds (· = m) (identity p c faults) m fun _ _ =>
      ∀ s ∈ (if p.runtimeEtcDirectory.isEmpty then [Step.timezone, .hostname, .transient]
        else [.timezone, .hostname]), faults s = .none := by
    unfold identity
    by_cases hr : p.runtimeEtcDirectory.isEmpty = true
    · rw [if_pos hr, if_pos hr]
      apply Upholds.bind (hstep _ m rfl)
      intro _ m₁ hm₁ ht
      apply Upholds.bind (hstep _ m₁ hm₁)
      intro _ m₂ hm₂ hh
      refine (hstep _ m₂ hm₂).mono ?_
      intro _ _ _ hx
      simp [ht, hh, hx]
    · rw [if_neg hr, if_neg hr]
      apply Upholds.bind (Upholds.lift (I := (· = m)) (Q := fun _ _ => True) rfl fun _ _ => trivial)
      intro _ m₁ hm₁ _
      apply Upholds.bind (hstep _ m₁ hm₁)
      intro _ m₂ hm₂ ht
      refine (hstep _ m₂ hm₂).mono ?_
      intro _ _ _ hh
      simp [ht, hh]
  unfold opening
  apply Upholds.bind hidentity
  intro _ m₁ hm₁ hi
  apply Upholds.bind (Upholds.lift (I := (· = m)) (Q := fun _ _ => True) hm₁ fun _ _ => trivial)
  intro _ m₂ hm₂ _
  apply Upholds.bind (Upholds.lift (I := (· = m)) (Q := fun _ _ => True) hm₂ fun _ _ => trivial)
  intro _ m₃ hm₃ _
  apply Upholds.bind (hstep _ m₃ hm₃)
  intro _ m₄ hm₄ h0
  apply Upholds.bind (hstep _ m₄ hm₄)
  intro _ m₅ hm₅ h1
  apply Upholds.bind (hstep _ m₅ hm₅)
  intro _ m₆ hm₆ h2
  refine Upholds.pure hm₆ ?_
  intro s hs
  rcases List.mem_append.mp hs with hs | hs
  · exact hi s hs
  · simp only [List.mem_cons, List.not_mem_nil, or_false] at hs
    rcases hs with rfl | rfl | rfl
    · exact h0
    · exact h1
    · exact h2

/-- A program that leaves the machine alone either ends the whole call or hands the same
machine on. -/
theorem same_or_ends {α β : Type} {a : Native α} {f : α → Native β} {Q : Prop}
    (h : Upholds (· = m) a m fun _ _ => Q) :
    (∃ o, (∀ b, o ≠ .ret b) ∧ (a >>= f) m = (o, m)) ∨ ∃ x, Q ∧ (a >>= f) m = f x m := by
  have hk := h.kept
  rcases ha : a m with ⟨o, m'⟩
  rw [ha] at hk
  dsimp only at hk
  subst hk
  cases o with
  | ret x => exact .inr ⟨x, h.post x m' ha, bind_of_ret ha⟩
  | raise e => exact .inl ⟨.raise e, by simp, bind_of_raise ha⟩
  | crash => exact .inl ⟨.crash, by simp, bind_of_crash ha⟩

/-! ### Steps after the drop-in is in place -/

theorem Reads.port (h : Reads p n text m) (port : Bytes) (file : Option Bytes) :
    Reads p n text (m.setPortFile port file) := ⟨h.changes, h.dropIn, h.loaded⟩

theorem writePorts_keeps (faults : ℕ → Fault) (t : TimePreferences) (i : ℕ) (ports : List Bytes)
    (hm : Reads p n text m) :
    Upholds (Reads p n text) (writePorts faults t i ports) m fun _ _ => True := by
  induction ports generalizing i m with
  | nil => exact Upholds.pure hm trivial
  | cons port ports ih =>
    have hport : ∀ m', Reads p n text m' →
        Upholds (Reads p n text) (writePort (faults i) t port) m' fun _ _ => True := by
      intro m' hm'
      unfold writePort
      apply Upholds.bind (P := fun _ _ => True) ⟨hm', fun _ _ _ => trivial⟩
      intro _ m₁ hm₁ _
      split
      · exact Upholds.pure hm₁ trivial
      · apply Upholds.bind (step_keeps (faults i) hm₁ (hm₁.port port _))
        intro _ m₂ hm₂ _
        exact Upholds.pure hm₂ trivial
    apply Upholds.bind (Upholds.lift (Q := fun _ _ => True) hm fun _ _ => trivial)
    intro _ m₁ hm₁ _
    apply Upholds.bind (hport m₁ hm₁)
    intro here m₂ hm₂ _
    apply Upholds.bind (ih (i + 1) hm₂)
    intro others m₃ hm₃ _
    exact Upholds.pure hm₃ trivial

theorem restopNtp_keeps (t : TimePreferences) (changed : ClockPolicyChanges) (faults : Faults)
    (hm : Reads p n text m) :
    Upholds (Reads p n text) (restopNtp p t changed faults) m fun _ _ => True := by
  unfold restopNtp
  split
  · exact units_keeps _ _ _ hm
  · exact Upholds.pure hm trivial

/-- From the reload on: whatever was started has read the drop-in. -/
theorem finish_serves (c : Configuration) (changed : ClockPolicyChanges) (r : ClockUnits)
    (faults : Faults) (hm : Reads p n text m) :
    Upholds (Reads p n text)
      (reloadChanged c.system.network changed faults >>= fun _ =>
        units (fun i => faults (.start i)) true r.start >>= fun _ =>
        sshPolicy p c.system.sshEnabled faults) m
      fun _ m' => Served p n text r.start m' := by
  apply Upholds.bind (reloadChanged_keeps _ _ _ hm)
  intro _ m₁ hm₁ _
  apply Upholds.bind (starts_serve _ _ hm₁)
  intro _ m₂ _ hs
  refine ((sshPolicy_serve _ _ hs).weaken fun _ h => h.reads).mono ?_
  intro _ m' _ h
  exact h.1

/-- A call that leaves the drop-in as it was, from the drop-in on. -/
theorem rest_serves (c : Configuration) (servers : Bool) (faults : Faults)
    (hm : Reads p n text m) :
    Upholds (Reads p n text) (remainder p c servers faults) m
      fun _ m' => ∃ r, clockUnits p c.time = .ok r ∧ Served p n text r.start m' := by
  apply Upholds.bind (writePorts_keeps _ _ _ _ hm)
  intro network m₁ hm₁ _
  apply Upholds.bind (Upholds.lift (Q := fun r _ => clockUnits p c.time = .ok r) hm₁ fun _ h => h)
  intro r m₂ hm₂ hr
  apply Upholds.bind (units_keeps _ _ _ hm₂)
  intro _ m₃ hm₃ _
  apply Upholds.bind (restopNtp_keeps _ _ _ hm₃)
  intro _ m₄ hm₄ _
  refine (finish_serves c _ r faults hm₄).mono ?_
  intro _ m' _ h
  exact ⟨r, hr, h⟩

/-! ### Calls -/

/-- One call of `preferences` with the faults that the environment has in store for it. -/
structure Call where
  config : Configuration
  faults : Faults

def Call.run (p : Product) (m : Machine) (call : Call) : Machine :=
  (preferences p call.config call.faults m).2

/-- The call replaces the drop-in while an NTP unit is running on the old one. -/
structure Exposed (p : Product) (m : Machine) (call : Call) : Prop where
  opening : ∀ s ∈ openingSteps p, call.faults s = .none
  changes : m.dropIn ≠ some (renderServers call.config.time)
  replaced : ∀ e, call.faults .servers ≠ .early e
  running : ∃ u ∈ p.ntpUnits, u ∈ m.active

/-- Nothing raises between the new drop-in and the stop of the last NTP unit. -/
structure Unbroken (p : Product) (call : Call) : Prop where
  servers : call.faults .servers = .none
  names : ∀ port ∈ p.interfaceNames, validInterfaceName port = true
  ports : ∀ i, call.faults (.port i) = .none
  units : ∃ r, clockUnits p call.config.time = .ok r
  stop : ∀ i, call.faults (.stop i) = .none
  restop : ∀ i, call.faults (.restop i) = .none

def Clean (p : Product) (m : Machine) (call : Call) : Prop := Exposed p m call → Unbroken p call

/-- The units and the drop-in under the files of the ports. -/
structure SameUnits (m m' : Machine) : Prop where
  active : m'.active = m.active
  changes : m'.changes = m.changes
  dropIn : m'.dropIn = m.dropIn

theorem writePorts_completed {faults : ℕ → Fault} (t : TimePreferences) (i : ℕ) (ports : List Bytes)
    (hf : ∀ i, faults i = .none) (hn : ∀ port ∈ ports, validInterfaceName port = true)
    (m : Machine) : ∃ b m', writePorts faults t i ports m = (.ret b, m') ∧ SameUnits m m' := by
  induction ports generalizing i m with
  | nil => exact ⟨false, m, rfl, rfl, rfl, rfl⟩
  | cons port ports ih =>
    have hcheck : (lift (check (validInterfaceName port) "invalid policy interface") : Native Unit) m =
        (.ret (), m) := by
      rw [hn port (List.mem_cons_self ..)]
      rfl
    have hport : ∃ b m', writePort (faults i) t port m = (.ret b, m') ∧ SameUnits m m' := by
      unfold writePort
      rw [gets_bind, hf i]
      split
      · exact ⟨false, m, rfl, rfl, rfl, rfl⟩
      · exact ⟨true, _, rfl, rfl, rfl, rfl⟩
    obtain ⟨here, m₁, h₁, s₁⟩ := hport
    obtain ⟨others, m₂, h₂, s₂⟩ := ih (i + 1) (fun x hx => hn x (List.mem_cons_of_mem _ hx)) m₁
    refine ⟨here || others, m₂, ?_, s₂.active.trans s₁.active, s₂.changes.trans s₁.changes,
      s₂.dropIn.trans s₁.dropIn⟩
    unfold writePorts
    exact (bind_of_ret hcheck).trans ((bind_of_ret h₁).trans ((bind_of_ret h₂).trans rfl))

theorem fold_stop_file (names : List Bytes) (m : Machine) :
    (names.foldl Machine.stop m).changes = m.changes ∧ (names.foldl Machine.stop m).dropIn = m.dropIn := by
  induction names generalizing m with
  | nil => exact ⟨rfl, rfl⟩
  | cons name names ih => exact ih (m.stop name)

/-- The stops of an unbroken call: no NTP unit is left running on the old drop-in. -/
theorem stops_idle {t : TimePreferences} {r : ClockUnits} (hr : UnitsSpec p t r) (network : Bool)
    (m : Machine) {u : Bytes} (hu : u ∈ p.ntpUnits) :
    u ∉ ((stops p t ⟨true, network⟩ r).foldl Machine.stop m).active := by
  rw [active_stop]
  rintro ⟨_, hn⟩
  apply hn
  unfold stops
  by_cases ht : t.synchronization = ascii "ntp"
  · rw [if_pos ⟨rfl, ht⟩]
    exact List.mem_append_right _ hu
  · exact List.mem_append_left _ ((hr.stop u).mpr (.inr ⟨ht, hu⟩))

theorem stops_completed {t : TimePreferences} {faults : Faults} {changed : ClockPolicyChanges}
    {r : ClockUnits} (hs : ∀ i, faults (.stop i) = .none) (hr : ∀ i, faults (.restop i) = .none)
    (f : Native Unit) (m : Machine) :
    (units (fun i => faults (.stop i)) false r.stop >>= fun _ =>
      restopNtp p t changed faults >>= fun _ => f) m =
        f ((stops p t changed r).foldl Machine.stop m) := by
  have hs' : (fun i => faults (.stop i)) = fun _ => Fault.none := funext hs
  have hr' : (fun i => faults (.restop i)) = fun _ => Fault.none := funext hr
  rw [hs', bind_of_ret (units_completed false r.stop m)]
  unfold restopNtp stops
  by_cases hc : changed.servers ∧ t.synchronization = ascii "ntp"
  · rw [if_pos hc, if_pos hc, hr', bind_of_ret (units_completed false p.ntpUnits _), List.foldl_append]
    rfl
  · rw [if_neg hc, if_neg hc, List.append_nil]
    rfl

/-- How a call ends: what runs has read the drop-in, and after a return so have all units
that were started, from the text of this call. -/
def EndsWell (p : Product) (call : Call) (o : Outcome Error Unit) (m : Machine) : Prop :=
  Loaded p m ∧ (o = .ret () → ∃ r, clockUnits p call.config.time = .ok r ∧
    Served p m.changes (some (renderServers call.config.time)) r.start m)

theorem EndsWell.of_keeps {call : Call} {a : Native Unit}
    (h : Upholds (Reads p n (some (renderServers call.config.time))) a m
      fun _ m' => ∃ r, clockUnits p call.config.time = .ok r ∧
        Served p n (some (renderServers call.config.time)) r.start m') :
    EndsWell p call (a m).1 (a m).2 := by
  refine ⟨h.kept.current, ?_⟩
  intro ho
  have ha : a m = (.ret (), (a m).2) := Prod.ext ho rfl
  obtain ⟨r, hr, hs⟩ := h.post () _ ha
  rw [h.kept.changes]
  exact ⟨r, hr, hs⟩

theorem EndsWell.of_stopped {call : Call} {o : Outcome Error Unit} (hm : Loaded p m)
    (ho : ∀ b, o ≠ .ret b) : EndsWell p call o m := ⟨hm, fun h => absurd h (ho ())⟩

/-- No NTP unit is running, so nothing runs on an old drop-in. -/
theorem reads_of_idle (h : ∀ u ∈ p.ntpUnits, u ∉ m.active) : Reads p m.changes m.dropIn m :=
  ⟨rfl, rfl, fun u hu ha => absurd ha (h u hu)⟩

/-- The window: every step up to the last stop succeeds. -/
theorem window_ends {call : Call} (hu : Unbroken p call)
    (hd : m.dropIn = some (renderServers call.config.time)) :
    EndsWell p call (remainder p call.config true call.faults m).1
      (remainder p call.config true call.faults m).2 := by
  obtain ⟨r, hr⟩ := hu.units
  obtain ⟨b, m₁, hports, hsu⟩ := writePorts_completed call.config.time 0 p.interfaceNames hu.ports
    hu.names m
  have hlift : (lift (clockUnits p call.config.time) : Native ClockUnits) m₁ = (.ret r, m₁) := by
    rw [hr]
    rfl
  have heq : remainder p call.config true call.faults m =
      (reloadChanged call.config.system.network ⟨true, b⟩ call.faults >>= fun _ =>
        units (fun i => call.faults (.start i)) true r.start >>= fun _ =>
        sshPolicy p call.config.system.sshEnabled call.faults)
        ((stops p call.config.time ⟨true, b⟩ r).foldl Machine.stop m₁) := by
    unfold remainder
    rw [bind_of_ret hports, bind_of_ret hlift]
    exact stops_completed hu.stop hu.restop _ m₁
  have hreads := reads_of_idle fun u (h : u ∈ p.ntpUnits) => stops_idle (clockUnits_spec hr) b m₁ h
  rw [(fold_stop_file _ m₁).2, hsu.dropIn, hd] at hreads
  rw [heq]
  refine EndsWell.of_keeps ((finish_serves call.config ⟨true, b⟩ r call.faults hreads).mono ?_)
  intro _ m' _ h
  exact ⟨r, hr, h⟩

/-- One call, returned or raised, keeps the units on the current server list. -/
theorem preferences_ends (call : Call) (hm : Loaded p m) (hc : Clean p m call) :
    EndsWell p call (preferences p call.config call.faults m).1 (call.run p m) := by
  unfold Call.run
  rw [preferences_flat]
  -- Until the drop-in the machine is untouched.
  rcases same_or_ends (opening_same call.config call.faults) with ⟨o, ho, h⟩ | ⟨_, hopen, h⟩
  · rw [h]
    exact EndsWell.of_stopped hm ho
  rw [h]
  unfold writeServers
  rw [bind_assoc, gets_bind]
  by_cases hsame : m.dropIn = some (renderServers call.config.time)
  · -- The same text again: no unit was on another one.
    rw [if_pos hsame]
    have hreads := reads_of_loaded hm
    rw [hsame] at hreads
    exact EndsWell.of_keeps (rest_serves call.config false call.faults hreads)
  rw [if_neg hsame]
  by_cases hrun : ∃ u ∈ p.ntpUnits, u ∈ m.active
  · have hexposed : (∀ e, call.faults .servers ≠ .early e) → Unbroken p call :=
      fun he => hc ⟨hopen, hsame, he, hrun⟩
    cases hf : call.faults .servers with
    | early e => exact EndsWell.of_stopped (o := .raise e) hm (by simp)
    | late e =>
      have hu := (hexposed (by simp [hf])).servers
      rw [hf] at hu
      simp at hu
    | none => exact window_ends (hexposed (by simp [hf])) rfl
  · -- Nothing runs on the old list.
    have hidle : ∀ u ∈ p.ntpUnits, u ∉ (m.writeDropIn (renderServers call.config.time)).active :=
      fun u hu ha => hrun ⟨u, hu, ha⟩
    have hreads := reads_of_idle hidle
    cases hf : call.faults .servers with
    | early e => exact EndsWell.of_stopped (o := .raise e) hm (by simp)
    | late e => exact EndsWell.of_stopped (o := .raise e) hreads.current (by simp)
    | none =>
      have hrest := rest_serves call.config true call.faults hreads
      exact EndsWell.of_keeps (a := remainder p call.config true call.faults) hrest

/-! ### Runs as Backend::apply makes them (storage.cpp:338-356) -/

/-- One apply: the forward call, whether what follows it succeeds, and the rollback call that
is made otherwise. -/
structure Apply where
  config : Configuration
  forward : Faults := fun _ => .none
  saved : Bool := true
  rollback : Faults := fun _ => .none

/-- The calls that a sequence of applies makes, given the machine and the configuration before. -/
def issue (p : Product) : Machine → Configuration → List Apply → List Call
  | _, _, [] => []
  | m, previous, a :: rest =>
    let forward : Call := ⟨a.config, a.forward⟩
    let rollback : Call := ⟨previous, a.rollback⟩
    if (preferences p a.config a.forward m).1 = .ret () ∧ a.saved = true then
      forward :: issue p (forward.run p m) a.config rest
    else
      forward :: rollback :: issue p (rollback.run p (forward.run p m)) previous rest

def AllClean (p : Product) : Machine → List Call → Prop
  | _, [] => True
  | m, call :: calls => Clean p m call ∧ AllClean p (call.run p m) calls

/-- Whenever one of the calls returns in NTP mode, each NTP unit was last started after the
last change of the drop-in, which is the text rendered from the call's configuration. -/
def ServersCurrent (p : Product) (m : Machine) (calls : List Call) : Prop :=
  ∀ done call rest, calls = done ++ call :: rest →
    let before := done.foldl (Call.run p) m
    (preferences p call.config call.faults before).1 = .ret () →
    call.config.time.synchronization = ascii "ntp" →
    (call.run p before).dropIn = some (renderServers call.config.time) ∧
      ∀ u ∈ p.ntpUnits, (call.run p before).loaded u =
        some ((call.run p before).changes, (call.run p before).dropIn)

theorem EndsWell.current {call : Call} (h : EndsWell p call (.ret ()) m)
    (ht : call.config.time.synchronization = ascii "ntp") :
    m.dropIn = some (renderServers call.config.time) ∧
      ∀ u ∈ p.ntpUnits, m.loaded u = some (m.changes, m.dropIn) := by
  obtain ⟨r, hr, hs⟩ := h.2 rfl
  refine ⟨hs.reads.dropIn, ?_⟩
  intro u hu
  rw [hs.reads.dropIn]
  exact hs.loaded u hu (((clockUnits_spec hr).start u).mpr (.inl ⟨ht, hu⟩))

/-- Over any calls: each one finds and leaves the units on the current list. -/
theorem calls_current (calls : List Call) (hm : Loaded p m) (hc : AllClean p m calls) :
    ServersCurrent p m calls := by
  induction calls generalizing m with
  | nil => exact fun done call rest h => by simp at h
  | cons first calls ih =>
    have hends := preferences_ends first hm hc.1
    intro done call rest h
    cases done with
    | nil =>
      injection h with h₁ _
      subst h₁
      intro before hret ht
      have hret' : (preferences p first.config first.faults m).1 = .ret () := hret
      rw [hret'] at hends
      exact hends.current ht
    | cons other done =>
      injection h with h₁ h₂
      subst h₁
      exact ih hends.1 hc.2 done call rest h₂

/-- In every sequence of applies in which no call raises between a new drop-in and the stop of
the NTP units that run on the old one, a call that returns has its server list in use. -/
theorem acknowledged_servers (p : Product) (m : Machine) (previous : Configuration)
    (applies : List Apply) (hm : Loaded p m) (hc : AllClean p m (issue p m previous applies)) :
    ServersCurrent p m (issue p m previous applies) :=
  calls_current _ hm hc

namespace Fixture

def timesyncd : Bytes := ascii "systemd-timesyncd.service"

/-- A list of one server. -/
def custom : Configuration := { time := { ntpServers := [ascii "10.0.0.1"] } }

/-- timesyncd has started on the drop-in of the default preferences. -/
def synchronized : Machine where
  dropIn := some (renderServers {})
  active := {timesyncd}
  loaded := fun _ => some (0, some (renderServers {}))

/-- timesyncd cannot be stopped, and the timezone cannot be set back. -/
def stuck : Apply where
  config := custom
  forward := fun s => if s = .restop 0 then .early {} else .none
  rollback := fun s => if s = .timezone then .early {} else .none

end Fixture

theorem acknowledged_servers_once :
    AllClean {} Fixture.synchronized (issue {} Fixture.synchronized {} [{ config := Fixture.custom }]) ∧
      ServersCurrent {} Fixture.synchronized
        (issue {} Fixture.synchronized {} [{ config := Fixture.custom }]) := by
  have hm : Loaded {} Fixture.synchronized := fun _ _ _ => rfl
  have hc : AllClean {} Fixture.synchronized
      (issue {} Fixture.synchronized {} [{ config := Fixture.custom }]) := by
    have hi : issue {} Fixture.synchronized {} [{ config := Fixture.custom }] =
        [⟨Fixture.custom, fun _ => .none⟩] := by
      unfold issue
      rw [if_pos ⟨by decide, rfl⟩]
      rfl
    rw [hi]
    refine ⟨?_, trivial⟩
    intro _
    refine ⟨rfl, ?_, fun _ => rfl, ⟨⟨[], [Fixture.timesyncd]⟩, by decide⟩, fun _ => rfl,
      fun _ => rfl⟩
    intro port hport
    simp [Product.interfaceNames] at hport
  exact ⟨hc, acknowledged_servers {} Fixture.synchronized {} _ hm hc⟩

/-- An apply whose stop of timesyncd fails and whose rollback fails too leaves the new drop-in
behind; the same apply again returns without a restart, and timesyncd keeps the old list. -/
theorem stale_servers :
    ¬ ∀ (p : Product) (m : Machine) (previous : Configuration) (applies : List Apply),
      Loaded p m → ServersCurrent p m (issue p m previous applies) := by
  intro h
  have hm : Loaded {} Fixture.synchronized := fun _ _ _ => rfl
  have hs := h {} Fixture.synchronized {} [Fixture.stuck, { config := Fixture.custom }] hm
  have hi : issue {} Fixture.synchronized {} [Fixture.stuck, { config := Fixture.custom }] =
      [⟨Fixture.custom, Fixture.stuck.forward⟩, ⟨{}, Fixture.stuck.rollback⟩] ++
        (⟨Fixture.custom, fun _ => .none⟩ : Call) :: [] := by
    unfold issue
    rw [if_neg (by decide)]
    unfold issue
    rw [if_pos ⟨by decide, rfl⟩]
    rfl
  rw [hi] at hs
  have hfail := (hs _ _ _ rfl (by decide) rfl).2 Fixture.timesyncd (by decide)
  revert hfail
  decide

end Monutchee.System.Native
