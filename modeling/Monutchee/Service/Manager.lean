import Monutchee.Lib.Act
import Monutchee.Lib.Dependency
import Monutchee.System.Data

/-!
# Starting the registered services (service_manager.cpp:154-194)

`start_registered` walks the services in the order of their registration and starts each after
the ones it names in `after`, depth first, with one list of the names already handled. The unit
controller is a parameter: an object with a state of its own, whose calls may answer or raise.
The calls are recorded with their answers. The depth bounds the recursion of `start_one` as the
stack of a process does.
-/

namespace Monutchee.Service
open Lib Lib.Act Relation
open Monutchee.System (Bytes ascii)

/-! ### The registry -/

inductive ServiceAction where
  | start | stop | restart | reload
  deriving DecidableEq, Repr

inductive ServicePriorityTier where
  | critical | high | normal | background
  deriving DecidableEq, Repr

/-- `ManagedService` (`service_manager.hpp:46-54`). -/
structure ManagedService where
  name : Bytes
  unit : Bytes
  after : List Bytes := []
  autoStart : Bool := true
  priorityTier : ServicePriorityTier := .normal
  deriving DecidableEq, Repr

/-- `ServiceManager::register_service` (`service_manager.cpp:154-162`). -/
def registerService (services : List ManagedService) (service : ManagedService) :
    Except Bytes (List ManagedService) :=
  if services.any fun candidate => candidate.name == service.name || candidate.unit == service.unit then
    .error (ascii "duplicate managed service")
  else .ok (services ++ [service])

/-- The registries of a manager. -/
inductive Registry : List ManagedService → Prop
  | empty : Registry []
  | register {services services' : List ManagedService} {service : ManagedService}
      (h : Registry services) (hs : registerService services service = .ok services') : Registry services'

/-- `ServiceManager::find` (`service_manager.cpp:164-172`). -/
def find (services : List ManagedService) (name : Bytes) : Except Bytes ManagedService :=
  match services.find? fun service => service.name == name with
  | none => .error (ascii "unknown service: " ++ name)
  | some found => .ok found

/-! ### The controller -/

/-- `ManagedServiceStatus` (`service_manager.hpp:56-68`), less the fields that no start reads. -/
structure ManagedServiceStatus where
  activeState : Bytes
  deriving DecidableEq, Repr

/-- `UnitController` (`service_manager.hpp:70-75`) over its own state. -/
structure UnitController (σ : Type) where
  inspect : ManagedService → σ → Except Bytes ManagedServiceStatus × σ
  control : ManagedService → ServiceAction → σ → Except Bytes Unit × σ

/-- A call of the controller and its answer. -/
inductive Call where
  | inspect (service : ManagedService) (answer : Except Bytes ManagedServiceStatus)
  | control (service : ManagedService) (action : ServiceAction) (answer : Except Bytes Unit)
  deriving DecidableEq, Repr

structure Bus (σ : Type) where
  state : σ
  calls : List Call := []

/-- The outcome of a call that throws what it cannot answer. -/
def answered {ε α : Type} : Except ε α → Outcome ε α
  | .ok a => .ret a
  | .error e => .raise e

variable {σ : Type}

def UnitController.inspects (C : UnitController σ) (service : ManagedService) :
    Act (Bus σ) Bytes ManagedServiceStatus := fun bus =>
  (answered (C.inspect service bus.state).1,
    ⟨(C.inspect service bus.state).2, bus.calls ++ [.inspect service (C.inspect service bus.state).1]⟩)

def UnitController.controls (C : UnitController σ) (service : ManagedService) (action : ServiceAction) :
    Act (Bus σ) Bytes Unit := fun bus =>
  (answered (C.control service action bus.state).1,
    ⟨(C.control service action bus.state).2,
      bus.calls ++ [.control service action (C.control service action bus.state).1]⟩)

/-! ### Starting -/

/-- The end of the stack. -/
def overflow {α : Type} : Act (Bus σ) Bytes α := fun bus => (.crash, bus)

/-- `ServiceManager::start_one` (`service_manager.cpp:174-185`): the names handled afterwards. -/
def startOne (C : UnitController σ) (services : List ManagedService) :
    ℕ → ManagedService → List Bytes → Act (Bus σ) Bytes (List Bytes)
  | 0, _, _ => overflow
  | depth + 1, service, started =>
    if started.contains service.name then pure started
    else do
      let started ← service.after.foldlM (fun started dependency => do
        let service ← lift (find services dependency)
        startOne C services depth service started) started
      let state ← C.inspects service
      if state.activeState ≠ ascii "active" then C.controls service .start else pure ()
      pure (started ++ [service.name])

/-- `ServiceManager::start_registered` (`service_manager.cpp:187-194`). -/
def startRegistered (C : UnitController σ) (services : List ManagedService) (depth : ℕ) :
    Act (Bus σ) Bytes Unit := do
  let _ ← services.foldlM (fun started service =>
    if service.autoStart then startOne C services depth service started else pure started) []
  pure ()

/-! ### Dependencies -/

/-- What a service names in `after`. -/
def Needs (services : List ManagedService) (service dependency : ManagedService) : Prop :=
  service ∈ services ∧ dependency ∈ services ∧ dependency.name ∈ service.after

/-- The services that an automatic start needs, and itself. -/
def Wanted (services : List ManagedService) (service : ManagedService) : Prop :=
  ∃ root ∈ services, root.autoStart = true ∧ ReflTransGen (Needs services) root service

/-- A registry whose dependencies are registered and have no cycle. -/
structure Acyclic (services : List ManagedService) : Prop where
  registry : Registry services
  registered : ∀ service ∈ services, ∀ name ∈ service.after, ∃ dependency ∈ services, dependency.name = name
  acyclic : ∀ service, ¬ TransGen (Needs services) service service

variable {services : List ManagedService} {service dependency : ManagedService}

theorem Registry.names (h : Registry services) : (services.map ManagedService.name).Nodup := by
  induction h with
  | empty => exact List.nodup_nil
  | @register services services' service _ hs ih =>
    unfold registerService at hs
    split at hs
    · cases hs
    · rename_i hfresh
      cases hs
      rw [List.map_append, List.nodup_append]
      refine ⟨ih, List.nodup_singleton _, ?_⟩
      intro x hx y hy
      obtain ⟨candidate, hc, rfl⟩ := List.mem_map.mp hx
      obtain rfl : y = service.name := by simpa using hy
      intro he
      apply hfresh
      rw [List.any_eq_true]
      exact ⟨candidate, hc, by simp [he]⟩

theorem Registry.same (h : Registry services) {a b : ManagedService} (ha : a ∈ services) (hb : b ∈ services)
    (hab : a.name = b.name) : a = b :=
  List.inj_on_of_nodup_map h.names ha hb hab

/-- The one service of a name. -/
theorem Registry.find (h : Registry services) (hd : dependency ∈ services) :
    find services dependency.name = .ok dependency := by
  unfold Service.find
  split
  · rename_i hf
    have hnone := List.find?_eq_none.mp hf dependency hd
    simp at hnone
  · rename_i found hf
    have hname : found.name = dependency.name := by simpa using List.find?_some hf
    rw [h.same (List.mem_of_find?_eq_some hf) hd hname]

/-! ### Handling -/

/-- A service that was handled, with the state that the controller found. -/
abbrev Handled := ManagedService × ManagedServiceStatus

/-- The calls for it. -/
def handling (p : Handled) : List Call :=
  .inspect p.1 (.ok p.2) ::
    if p.2.activeState = ascii "active" then [] else [.control p.1 .start (.ok ())]

/-- The calls for a service whose start comes to an end. -/
inductive Failing (service : ManagedService) (error : Bytes) : List Call → Prop
  | inspect : Failing service error [.inspect service (.error error)]
  | start {status : ManagedServiceStatus} (h : status.activeState ≠ ascii "active") :
      Failing service error [.inspect service (.ok status), .control service .start (.error error)]

/-- Each service of the report was wanted and handled after all that it needs, with no other call. -/
structure Progress (services : List ManagedService) (report : List Handled) (started : List Bytes)
    (bus : Bus σ) : Prop where
  order : Ordered (Needs services) (report.map Prod.fst)
  wanted : ∀ service ∈ report.map Prod.fst, Wanted services service
  calls : bus.calls = report.flatMap handling
  names : started = report.map fun p => p.1.name

/-- The end of a run by a call that raised, for a service whose turn it was. -/
def Interrupted (services : List ManagedService) (error : Bytes) (bus : Bus σ) : Prop :=
  ∃ (report : List Handled) (service : ManagedService) (last : List Call),
    Ordered (Needs services) (report.map Prod.fst ++ [service]) ∧
    (∀ s ∈ report.map Prod.fst ++ [service], Wanted services s) ∧
    bus.calls = report.flatMap handling ++ last ∧ Failing service error last

variable {C : UnitController σ} {report report' : List Handled} {started : List Bytes} {bus : Bus σ}

theorem Wanted.mem (h : Wanted services service) : service ∈ services := by
  obtain ⟨root, hroot, -, hreach⟩ := h
  cases hreach with
  | refl => exact hroot
  | tail _ hstep => exact hstep.2.1

theorem Wanted.needs (h : Wanted services service) (hn : Needs services service dependency) :
    Wanted services dependency := by
  obtain ⟨root, hroot, hauto, hreach⟩ := h
  exact ⟨root, hroot, hauto, hreach.tail hn⟩

/-- The list of names tells which services were handled. -/
theorem Progress.mem_started (hr : Registry services) (h : Progress services report started bus)
    (hs : service ∈ services) : service.name ∈ started ↔ service ∈ report.map Prod.fst := by
  rw [h.names]
  constructor
  · intro hm
    obtain ⟨p, hp, hname⟩ := List.mem_map.mp hm
    have hm := List.mem_map_of_mem (f := Prod.fst) hp
    rw [hr.same hs (h.wanted p.1 hm).mem hname.symm]
    exact hm
  · intro hm
    obtain ⟨p, hp, rfl⟩ := List.mem_map.mp hm
    exact List.mem_map_of_mem (f := fun p : Handled => p.1.name) hp

theorem inspects_ends (C : UnitController σ) (service : ManagedService) (bus : Bus σ) :
    Ends (C.inspects service) bus (fun status after => after.calls = bus.calls ++ [.inspect service (.ok status)])
      fun error after => after.calls = bus.calls ++ [.inspect service (.error error)] := by
  rcases hi : (C.inspect service bus.state).1 with error | status
  · apply @Ends.raised _ _ _ _ _ _ _ ⟨(C.inspect service bus.state).2, bus.calls ++ [.inspect service (.error error)]⟩ error
    · unfold UnitController.inspects
      rw [hi]
      rfl
    · rfl
  · apply @Ends.ret _ _ _ _ _ _ _ ⟨(C.inspect service bus.state).2, bus.calls ++ [.inspect service (.ok status)]⟩ status
    · unfold UnitController.inspects
      rw [hi]
      rfl
    · rfl

theorem controls_ends (C : UnitController σ) (service : ManagedService) (action : ServiceAction) (bus : Bus σ) :
    Ends (C.controls service action) bus
      (fun _ after => after.calls = bus.calls ++ [.control service action (.ok ())])
      fun error after => after.calls = bus.calls ++ [.control service action (.error error)] := by
  rcases hc : (C.control service action bus.state).1 with error | ⟨⟩
  · apply @Ends.raised _ _ _ _ _ _ _
      ⟨(C.control service action bus.state).2, bus.calls ++ [.control service action (.error error)]⟩ error
    · unfold UnitController.controls
      rw [hc]
      rfl
    · rfl
  · apply @Ends.ret _ _ _ _ _ _ _
      ⟨(C.control service action bus.state).2, bus.calls ++ [.control service action (.ok ())]⟩ ()
    · unfold UnitController.controls
      rw [hc]
      rfl
    · rfl

/-- The two calls for a service whose turn it is. -/
theorem turn_ends (h : Progress services report started bus) (hw : Wanted services service)
    (hnew : service ∉ report.map Prod.fst) (hneeds : ∀ d, Needs services service d → d ∈ report.map Prod.fst) :
    Ends (do
      let state ← C.inspects service
      if state.activeState ≠ ascii "active" then C.controls service .start else pure ()
      pure (started ++ [service.name])) bus
      (fun started bus => ∃ status, Progress services (report ++ [(service, status)]) started bus)
      (Interrupted services) := by
  have horder : Ordered (Needs services) (report.map Prod.fst ++ [service]) := h.order.append hnew hneeds
  have hwanted : ∀ s ∈ report.map Prod.fst ++ [service], Wanted services s := by
    intro s hs
    rcases List.mem_append.mp hs with hs | hs
    · exact h.wanted s hs
    · rw [List.mem_singleton.mp hs]
      exact hw
  have hprogress : ∀ (status : ManagedServiceStatus) (bus : Bus σ),
      bus.calls = report.flatMap handling ++ handling (service, status) →
      Progress services (report ++ [(service, status)]) (started ++ [service.name]) bus := by
    intro status bus hcalls
    refine ⟨by simpa using horder, by simpa using hwanted, ?_, ?_⟩
    · rw [hcalls, List.flatMap_append, List.flatMap_singleton]
    · rw [h.names, List.map_append]
      rfl
  have hfailed : ∀ (error : Bytes) (last : List Call) (bus : Bus σ), Failing service error last →
      bus.calls = report.flatMap handling ++ last → Interrupted services error bus :=
    fun error last bus hlast hcalls => ⟨report, service, last, horder, hwanted, hcalls, hlast⟩
  have hinspect := inspects_ends C service bus
  rw [h.calls] at hinspect
  apply (hinspect.mono (fun _ _ hi => hi) fun error after hi => hfailed error _ after .inspect hi).bind
  intro status bus₁ h₁
  by_cases hactive : status.activeState = ascii "active"
  · have hcalls : bus₁.calls = report.flatMap handling ++ handling (service, status) := by
      rw [h₁, handling, if_pos hactive]
    rw [if_neg (not_not.mpr hactive)]
    exact Ends.ret rfl ⟨status, hprogress status bus₁ hcalls⟩
  · have hcontrol := controls_ends C service .start bus₁
    rw [h₁] at hcontrol
    simp only [List.append_assoc, List.cons_append, List.nil_append] at hcontrol
    rw [if_pos hactive]
    apply (hcontrol.mono (fun _ _ hc => hc) fun error after hc => hfailed error _ after (.start hactive) hc).bind
    intro _ bus₂ h₂
    have hcalls : bus₂.calls = report.flatMap handling ++ handling (service, status) := by
      rw [h₂, handling, if_neg hactive]
    exact Ends.ret rfl ⟨status, hprogress status bus₂ hcalls⟩

/-! ### The search -/

/-- A report that has grown by services below a rank. -/
structure Grown (rank : ManagedService → ℕ) (bound : ℕ) (report report' : List Handled) : Prop where
  kept : report.map Prod.fst ⊆ report'.map Prod.fst
  low : ∀ service ∈ report'.map Prod.fst, service ∈ report.map Prod.fst ∨ rank service < bound

variable {rank : ManagedService → ℕ} {bound : ℕ}

theorem Grown.refl : Grown rank bound report report :=
  ⟨List.Subset.refl _, fun _ hs => .inl hs⟩

theorem Grown.trans {low : ℕ} {report'' : List Handled} (h : Grown rank bound report report')
    (h' : Grown rank low report' report'') (hle : low ≤ bound) : Grown rank bound report report'' := by
  refine ⟨fun s hs => h'.kept (h.kept hs), ?_⟩
  intro s hs
  rcases h'.low s hs with hs | hs
  · exact h.low s hs
  · exact .inr (by omega)

/-- The loop over the names of the dependencies: the services with one of these names are handled. -/
def Searched (services : List ManagedService) (rank : ManagedService → ℕ) (bound : ℕ) (report : List Handled)
    (names started : List Bytes) (bus : Bus σ) : Prop :=
  ∃ report', Progress services report' started bus ∧ Grown rank bound report report' ∧
    ∀ d ∈ services, d.name ∈ names → d ∈ report'.map Prod.fst

/-- What `start_one` does for a wanted service, where the rank falls along the dependencies. -/
theorem startOne_ends (ha : Acyclic services) (hrank : ∀ a b, Needs services a b → rank b < rank a) (depth : ℕ) :
    ∀ {service : ManagedService} {report : List Handled} {started : List Bytes} {bus : Bus σ},
      rank service < depth → Wanted services service → Progress services report started bus →
      Ends (startOne C services depth service started) bus
        (fun started bus => ∃ report', Progress services report' started bus ∧
          Grown rank (rank service + 1) report report' ∧ service ∈ report'.map Prod.fst)
        (Interrupted services) := by
  induction depth with
  | zero =>
    intro service report started bus hdepth
    omega
  | succ depth ih =>
    intro service report started bus hdepth hw h
    rw [startOne]
    by_cases hin : service.name ∈ started
    · have hm := (h.mem_started ha.registry hw.mem).mp hin
      rw [if_pos (List.contains_iff_mem.mpr hin)]
      exact Ends.ret rfl ⟨report, h, Grown.refl, hm⟩
    · rw [if_neg (by simpa using hin)]
      have hnew : service ∉ report.map Prod.fst := fun hm => hin ((h.mem_started ha.registry hw.mem).mpr hm)
      -- The loop handles the names one after the other, and only services below this one.
      have hloop := @Ends.foldlM (Bus σ) Bytes (List Bytes) bus (Interrupted services) Bytes
        (fun started dependency => do
          let service ← lift (find services dependency)
          startOne C services depth service started)
        (Searched services rank (rank service) report) service.after ?step started
        ⟨report, h, Grown.refl, by simp⟩
      case step =>
        intro names name started₁ bus₁ hname hsearched
        obtain ⟨report₁, h₁, hgrown, hnames⟩ := hsearched
        obtain ⟨dependency, hd, rfl⟩ := ha.registered service hw.mem name hname
        have hneeds : Needs services service dependency := ⟨hw.mem, hd, hname⟩
        have hlow := hrank _ _ hneeds
        rw [ha.registry.find hd]
        apply (ih (by omega) (hw.needs hneeds) h₁).mono _ fun _ _ hi => hi
        rintro started₂ bus₂ ⟨report₂, h₂, hgrown', hm⟩
        refine ⟨report₂, h₂, hgrown.trans hgrown' (by omega), ?_⟩
        intro d hds hdn
        rcases List.mem_append.mp hdn with hdn | hdn
        · exact hgrown'.kept (hnames d hds hdn)
        · rw [ha.registry.same hds hd (List.mem_singleton.mp hdn)]
          exact hm
      apply hloop.bind
      rintro started₁ bus₁ ⟨report₁, h₁, hgrown, hnames⟩
      have hnew₁ : service ∉ report₁.map Prod.fst := by
        intro hm
        rcases hgrown.low service hm with hm | hlt
        · exact hnew hm
        · omega
      have hturn := @turn_ends σ services service C report₁ started₁ bus₁ h₁ hw hnew₁
        fun d hd => hnames d hd.2.1 (by simpa using hd.2.2)
      apply hturn.mono _ fun _ _ hi => hi
      rintro started₂ bus₂ ⟨status, h₂⟩
      refine ⟨_, h₂, ⟨?_, ?_⟩, by simp⟩
      · intro s hs
        rw [List.map_append]
        exact List.mem_append_left _ (hgrown.kept hs)
      · intro s hs
        rw [List.map_append] at hs
        rcases List.mem_append.mp hs with hs | hs
        · rcases hgrown.low s hs with hs | hlt
          · exact .inl hs
          · exact .inr (by omega)
        · obtain rfl : s = service := by simpa using hs
          exact .inr (by omega)

/-- Every root of the registry is handled, and nothing that no root needs. -/
theorem startRegistered_ends (ha : Acyclic services) {depth : ℕ} (hdepth : services.length ≤ depth)
    (hbus : bus.calls = []) :
    Ends (startRegistered C services depth) bus
      (fun _ bus => ∃ report started, Progress services report started bus ∧
        ∀ s, Wanted services s → s ∈ report.map Prod.fst)
      (Interrupted services) := by
  obtain ⟨rank, hshort, hrank⟩ := @exists_rank _ (Needs services) services (fun _ _ h => h.2.1)
    fun s _ => ha.acyclic s
  have hloop := @Ends.foldlM (Bus σ) Bytes (List Bytes) bus (Interrupted services) ManagedService
    (fun started service => if service.autoStart then startOne C services depth service started else pure started)
    (fun roots started bus => ∃ report, Progress services report started bus ∧
      ∀ root ∈ roots, root.autoStart = true → root ∈ report.map Prod.fst)
    services ?step [] ⟨[], ⟨.nil, by simp, by simpa using hbus, rfl⟩, by simp⟩
  case step =>
    rintro roots root started₁ bus₁ hroot ⟨report₁, h₁, hroots⟩
    by_cases hauto : root.autoStart = true
    · have hw : Wanted services root := ⟨root, hroot, hauto, .refl⟩
      have hlow := hshort root hroot
      rw [if_pos hauto]
      apply (startOne_ends ha hrank depth (by omega) hw h₁).mono _ fun _ _ hi => hi
      rintro started₂ bus₂ ⟨report₂, h₂, hgrown, hm⟩
      refine ⟨report₂, h₂, ?_⟩
      intro r hr hrauto
      rcases List.mem_append.mp hr with hr | hr
      · exact hgrown.kept (hroots r hr hrauto)
      · rw [List.mem_singleton.mp hr]
        exact hm
    · rw [if_neg hauto]
      refine Ends.ret rfl ⟨report₁, h₁, ?_⟩
      intro r hr hrauto
      rcases List.mem_append.mp hr with hr | hr
      · exact hroots r hr hrauto
      · rw [List.mem_singleton.mp hr] at hrauto
        exact absurd hrauto hauto
  apply hloop.bind
  rintro started₁ bus₁ ⟨report, h, hroots⟩
  refine Ends.ret rfl ⟨report, started₁, h, ?_⟩
  rintro s ⟨root, hroot, hauto, hreach⟩
  exact h.order.closed (hroots root (by simpa using hroot) hauto) hreach

/-- Where the dependencies are registered and have no cycle, `start_registered` inspects each
service that an automatic start needs exactly once and no other, after all that it needs, and
starts exactly those that it does not find active. When a call of the controller raises, what was
handled before is closed under the dependencies, and the failing service waited for nothing. -/
theorem services_in_order (C : UnitController σ) (ha : Acyclic services) (state : σ) (depth : ℕ)
    (hdepth : services.length ≤ depth) :
    ∃ (outcome : Outcome Bytes Unit) (bus : Bus σ) (report : List Handled),
      startRegistered C services depth ⟨state, []⟩ = (outcome, bus) ∧
      (report.map Prod.fst).Nodup ∧
      (∀ before s behind, report.map Prod.fst = before ++ s :: behind →
        ∀ d, TransGen (Needs services) s d → d ∈ before) ∧
      ((outcome = .ret () ∧ bus.calls = report.flatMap handling ∧
          ∀ s, s ∈ report.map Prod.fst ↔ Wanted services s) ∨
        ∃ error s last, outcome = .raise error ∧ bus.calls = report.flatMap handling ++ last ∧
          Failing s error last ∧ s ∉ report.map Prod.fst ∧
          (∀ d, TransGen (Needs services) s d → d ∈ report.map Prod.fst) ∧
          ∀ t, t ∈ report.map Prod.fst ∨ t = s → Wanted services t) := by
  obtain ⟨hcut, hret, hraise⟩ := @startRegistered_ends σ services C ⟨state, []⟩ ha depth hdepth rfl
  rcases hrun : startRegistered C services depth ⟨state, []⟩ with ⟨outcome, bus⟩
  cases outcome with
  | ret u =>
    obtain ⟨report, started, h, hall⟩ := hret u bus hrun
    exact ⟨_, bus, report, rfl, h.order.nodup, fun before s behind hs d hd => h.order.all_before hs hd,
      .inl ⟨rfl, h.calls, fun s => ⟨h.wanted s, hall s⟩⟩⟩
  | raise error =>
    obtain ⟨report, s, last, horder, hwanted, hcalls, hlast⟩ := hraise error bus hrun
    have hnodup := horder.nodup
    obtain ⟨hbefore, -⟩ := horder.before (show _ = report.map Prod.fst ++ s :: [] from rfl)
    refine ⟨_, bus, report, rfl, hbefore.nodup, fun before t behind ht d hd => hbefore.all_before ht hd,
      .inr ⟨error, s, last, rfl, hcalls, hlast, ?_, fun d hd => horder.all_before rfl hd, ?_⟩⟩
    · intro hm
      exact (List.nodup_append.mp hnodup).2.2 s hm s (List.mem_singleton_self s) rfl
    · intro t ht
      apply hwanted
      simpa using ht
  | crash => exact absurd (by rw [hrun]) hcut

/-- A service above two others that share a dependency, and one that no root needs. -/
def diamond : List ManagedService :=
  [{ name := ascii "top", unit := ascii "top.service", after := [ascii "left", ascii "right"] },
    { name := ascii "left", unit := ascii "left.service", after := [ascii "base"], autoStart := false },
    { name := ascii "right", unit := ascii "right.service", after := [ascii "base"] },
    { name := ascii "base", unit := ascii "base.service" },
    { name := ascii "spare", unit := ascii "spare.service", autoStart := false }]

/-- The base is active, and the other units can be started. -/
def adopting : UnitController Unit where
  inspect service u := (.ok ⟨if service.name = ascii "base" then ascii "active" else ascii "inactive"⟩, u)
  control _ _ u := (.ok (), u)

theorem diamond_acyclic : Acyclic diamond := by
  have hnames : ∀ service ∈ diamond, ∀ name ∈ service.after, ∃ dependency ∈ diamond, dependency.name = name := by
    decide
  have hrank : ∀ a ∈ diamond, ∀ b ∈ diamond, b.name ∈ a.after → b.after.length < a.after.length := by
    decide
  have hstep : ∀ n : Fin diamond.length, registerService (diamond.take n) (diamond.get n) =
      .ok (diamond.take (n + 1)) := by decide
  have htake : ∀ n ≤ diamond.length, Registry (diamond.take n) := by
    intro n hn
    induction n with
    | zero => exact .empty
    | succ n ih => exact .register (ih (by omega)) (hstep ⟨n, hn⟩)
  exact ⟨htake diamond.length (Nat.le_refl _), hnames, acyclic_of_rank fun a b h => hrank a h.1 b h.2.1 h.2.2⟩

theorem services_in_order_diamond :
    ∃ report : List Handled, (report.map Prod.fst).Nodup ∧
      (startRegistered adopting diamond 5 ⟨(), []⟩).2.calls = report.flatMap handling ∧
      ∀ s, s ∈ report.map Prod.fst ↔ Wanted diamond s := by
  obtain ⟨outcome, bus, report, hrun, hnodup, -, hend⟩ :=
    services_in_order adopting diamond_acyclic () 5 (by decide)
  have hreturns : (startRegistered adopting diamond 5 ⟨(), []⟩).1 = .ret () := by decide
  rw [hrun] at hreturns ⊢
  rcases hend with ⟨-, hcalls, hall⟩ | ⟨error, s, last, rfl, -⟩
  · exact ⟨report, hnodup, hcalls, hall⟩
  · cases hreturns

end Monutchee.Service
