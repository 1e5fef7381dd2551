import Monutchee.Service.Manager

/-!
# When starting the services comes to an end (service_manager.cpp:154-194)

`register_service` accepts every list of names in `after`, the name of the service itself
included, and `start_one` marks a service only after its dependencies. A cycle is therefore
followed without end, unless an unregistered name raises first. `Terminating` says of a registry
which of the two the search meets first.
-/

namespace Monutchee.Service
open Lib Lib.Act Relation
open Monutchee.System (Bytes ascii)

/-! ### Dependencies that come to an end -/

/-- All that the service needs is registered, and following it comes to an end. -/
inductive Grounded (services : List ManagedService) : ManagedService → Prop
  | intro {service : ManagedService}
      (hr : ∀ name ∈ service.after, ∃ dependency ∈ services, dependency.name = name)
      (h : ∀ dependency ∈ services, dependency.name ∈ service.after → Grounded services dependency) :
      Grounded services service

/-- The name of such a service. -/
def Fine (services : List ManagedService) (name : Bytes) : Prop :=
  ∃ service ∈ services, service.name = name ∧ Grounded services service

/-- The first name in `after` that is not the name of a grounded service. -/
def Blocks (services : List ManagedService) (service : ManagedService) (name : Bytes) : Prop :=
  First (fun name => ¬ Fine services name) service.after name

/-- The search below the service comes to an unregistered name before it comes to a cycle. -/
inductive Stops (services : List ManagedService) : ManagedService → Prop
  | unregistered {service : ManagedService} {name : Bytes} (hb : Blocks services service name)
      (hn : ∀ dependency ∈ services, dependency.name ≠ name) : Stops services service
  | through {service dependency : ManagedService} (hb : Blocks services service dependency.name)
      (hd : dependency ∈ services) (h : Stops services dependency) : Stops services service

/-- The first service to start automatically that is not grounded, if there is one, comes to an
unregistered name. -/
def Terminating (services : List ManagedService) : Prop :=
  ∀ root, First (fun s => s.autoStart = true ∧ ¬ Grounded services s) services root → Stops services root

variable {σ : Type} {services : List ManagedService} {service dependency : ManagedService} {name : Bytes}

theorem Grounded.fine (h : Grounded services service) (hn : name ∈ service.after) : Fine services name := by
  cases h with
  | intro hr h =>
    obtain ⟨dependency, hd, rfl⟩ := hr name hn
    exact ⟨dependency, hd, rfl, h dependency hd hn⟩

theorem Fine.grounded (hr : Registry services) (h : Fine services dependency.name) (hd : dependency ∈ services) :
    Grounded services dependency := by
  obtain ⟨found, hf, hname, hg⟩ := h
  rw [← hr.same hf hd hname]
  exact hg

theorem find_unknown (h : ¬ ∃ dependency ∈ services, dependency.name = name) :
    find services name = .error (ascii "unknown service: " ++ name) := by
  unfold find
  rw [List.find?_eq_none.mpr]
  intro dependency hd hname
  exact h ⟨dependency, hd, by simpa using hname⟩

theorem Grounded.of_fine (hr : Registry services) (h : ∀ name ∈ service.after, Fine services name) :
    Grounded services service := by
  refine .intro ?_ ?_
  · intro name hn
    obtain ⟨dependency, hd, hname, -⟩ := h name hn
    exact ⟨dependency, hd, hname⟩
  · intro dependency hd hn
    exact (h _ hn).grounded hr hd

theorem Stops.not_grounded (h : Stops services service) : ¬ Grounded services service := by
  intro hg
  cases h with
  | unregistered hb _ => exact hb.1 (hg.fine hb.mem)
  | through hb _ _ => exact hb.1 (hg.fine hb.mem)

/-- Without a cycle and with every name registered, all services are grounded. -/
theorem Acyclic.terminating (ha : Acyclic services) : Terminating services := by
  obtain ⟨rank, -, hrank⟩ := @exists_rank _ (Needs services) services (fun _ _ h => h.2.1)
    fun s _ => ha.acyclic s
  have hground : ∀ n, ∀ s ∈ services, rank s < n → Grounded services s := by
    intro n
    induction n with
    | zero =>
      intro s _ hs
      omega
    | succ n ih =>
      intro s hs hn
      refine .intro (ha.registered s hs) ?_
      intro d hd hname
      have hlow := hrank s d ⟨hs, hd, hname⟩
      exact ih d hd (by omega)
  intro root hroot
  exact absurd (hground _ root hroot.mem (Nat.lt_succ_self _)) hroot.1.2

/-! ### The services that a start visits -/

/-- A call of `start_one` out of another: below a grounded service every call is for a grounded
one, and the last call out of one that stops is for the service that it is blocked by. -/
def Visits (services : List ManagedService) (service dependency : ManagedService) : Prop :=
  Needs services service dependency ∧
    (Grounded services dependency ∨ Stops services dependency ∧ Blocks services service dependency.name)

theorem Grounded.acc (h : Grounded services service) : Acc (fun b a => Visits services a b) service := by
  induction h with
  | intro _ _ ih =>
    constructor
    intro dependency hv
    exact ih dependency hv.1.2.1 hv.1.2.2

theorem Stops.acc (hr : Registry services) (h : Stops services service) :
    Acc (fun b a => Visits services a b) service := by
  induction h with
  | unregistered hb hn =>
    constructor
    rintro dependency ⟨hneeds, hg | ⟨-, hblocks⟩⟩
    · exact hg.acc
    · exact absurd (hblocks.unique hb) (hn dependency hneeds.2.1)
  | through hb hd _ ih =>
    constructor
    rintro dependency ⟨hneeds, hg | ⟨-, hblocks⟩⟩
    · exact hg.acc
    · rw [hr.same hneeds.2.1 hd (hblocks.unique hb)]
      exact ih

theorem visits_acyclic (hr : Registry services) (service : ManagedService) :
    ¬ TransGen (Visits services) service service := by
  intro h
  have hend : Grounded services service ∨ Stops services service := by
    obtain ⟨_, _, hv⟩ := TransGen.tail'_iff.mp h
    exact hv.2.imp_right And.left
  rcases hend with hg | hs
  · exact acyclic_of_acc hg.acc h
  · exact acyclic_of_acc (hs.acc hr) h

/-! ### Within the depth -/

/-- Only grounded services are marked. -/
def Known (services : List ManagedService) (started : List Bytes) : Prop := ∀ name ∈ started, Fine services name

variable {C : UnitController σ} {started : List Bytes} {bus : Bus σ}

theorem Known.append (h : Known services started) (hn : Fine services name) : Known services (started ++ [name]) := by
  intro n hm
  rcases List.mem_append.mp hm with hm | hm
  · exact h n hm
  · rw [List.mem_singleton.mp hm]
    exact hn

/-- The names before the one that is followed next, and it. -/
theorem fine_append {names : List Bytes} (h : ∀ n ∈ names, Fine services n) (hn : Fine services name) :
    ∀ n ∈ names ++ [name], Fine services n := Known.append h hn

/-- The roots before the one that is started next, and it. -/
theorem rooted_append {roots : List ManagedService} {root : ManagedService}
    (h : ∀ s ∈ roots, s.autoStart = true → Grounded services s)
    (hroot : root.autoStart = true → Grounded services root) :
    ∀ s ∈ roots ++ [root], s.autoStart = true → Grounded services s := by
  intro s hs hauto
  rcases List.mem_append.mp hs with hs | hs
  · exact h s hs hauto
  · obtain rfl := List.mem_singleton.mp hs
    exact hroot hauto

/-- The calls of the controller for a service end, and mark it. -/
theorem controlled_ends (C : UnitController σ) (hk : Known services started)
    (hs : service ∈ services) (hg : Grounded services service) (bus : Bus σ) :
    Ends (do
      let state ← C.inspects service
      if state.activeState ≠ ascii "active" then C.controls service .start else pure ()
      pure (started ++ [service.name])) bus
      (fun started _ => Known services started ∧ Grounded services service) fun _ _ => True := by
  have hmarked : Known services (started ++ [service.name]) := hk.append ⟨service, hs, rfl, hg⟩
  apply ((inspects_ends C service bus).mono (fun _ _ h => h) fun _ _ _ => trivial).bind
  intro status bus₁ _
  split
  · apply ((controls_ends C service .start bus₁).mono (fun _ _ h => h) fun _ _ _ => trivial).bind
    intro _ bus₂ _
    exact Ends.ret rfl ⟨hmarked, hg⟩
  · exact Ends.ret rfl ⟨hmarked, hg⟩

/-- Below a depth that exceeds the rank, `start_one` ends for a service that is grounded or stops,
and it returns for the grounded ones alone. -/
theorem startOne_visits (C : UnitController σ) (hr : Registry services) {rank : ManagedService → ℕ}
    (hrank : ∀ a b, Visits services a b → rank b < rank a) (depth : ℕ) :
    ∀ {service : ManagedService} {started : List Bytes} {bus : Bus σ}, rank service < depth →
      service ∈ services → Grounded services service ∨ Stops services service → Known services started →
      Ends (startOne C services depth service started) bus
        (fun started _ => Known services started ∧ Grounded services service) fun _ _ => True := by
  induction depth with
  | zero =>
    intro service started bus hdepth
    omega
  | succ depth ih =>
    intro service started bus hdepth hs hend hk
    rw [startOne]
    by_cases hin : service.name ∈ started
    · rw [if_pos (List.contains_iff_mem.mpr hin)]
      exact Ends.ret rfl ⟨hk, (hk _ hin).grounded hr hs⟩
    · rw [if_neg (by simpa using hin)]
      -- Up to the name that blocks, the loop goes down to grounded services.
      have hloop := @Ends.foldlM_split (Bus σ) Bytes (List Bytes) (fun _ _ => True) Bytes
        (fun started dependency => do
          let service ← lift (find services dependency)
          startOne C services depth service started)
        (fun names started _ => Known services started ∧ ∀ n ∈ names, Fine services n) service.after ?step
        service.after [] started bus rfl ⟨hk, by simp⟩
      case step =>
        rintro names name rest started₁ bus₁ hafter ⟨hk₁, hnames⟩
        have hname : name ∈ service.after := by
          rw [hafter]
          simp
        by_cases hd : ∃ dependency ∈ services, dependency.name = name
        · obtain ⟨dependency, hd, rfl⟩ := hd
          have hneeds : Needs services service dependency := ⟨hs, hd, hname⟩
          have hvisit : Grounded services dependency ∨
              Stops services dependency ∧ Blocks services service dependency.name := by
            by_cases hfine : Fine services dependency.name
            · exact .inl (hfine.grounded hr hd)
            · have hblocks : Blocks services service dependency.name :=
                ⟨hfine, names, rest, hafter, fun n hn => not_not.mpr (hnames n hn)⟩
              rcases hend with hg | hstops
              · exact absurd (hg.fine hname) hfine
              · cases hstops with
                | unregistered hb hn => exact absurd (hblocks.unique hb) (hn dependency hd)
                | through hb hd' h =>
                  have hsame := hr.same hd hd' (hblocks.unique hb)
                  rw [← hsame] at h
                  exact .inr ⟨h, hblocks⟩
          have hlow := hrank service dependency ⟨hneeds, hvisit⟩
          rw [hr.find hd]
          apply (ih (by omega) hd (hvisit.imp_right And.left) hk₁).mono _ fun _ _ _ => trivial
          rintro started₂ bus₂ ⟨hk₂, hg⟩
          exact ⟨hk₂, fine_append hnames ⟨dependency, hd, rfl, hg⟩⟩
        · rw [find_unknown hd]
          exact Ends.raised rfl trivial
      apply hloop.bind
      rintro started₁ bus₁ ⟨hk₁, hall⟩
      exact controlled_ends C hk₁ hs (Grounded.of_fine hr hall) bus₁

/-- From the roots, within the number of the registered services. -/
theorem Terminating.ends (h : Terminating services) (hr : Registry services) (C : UnitController σ) {depth : ℕ}
    (hdepth : services.length ≤ depth) (bus : Bus σ) : (startRegistered C services depth bus).1 ≠ .crash := by
  obtain ⟨rank, hshort, hrank⟩ := @exists_rank _ (Visits services) services (fun _ _ h => h.1.2.1)
    fun s _ => visits_acyclic hr s
  have hloop := @Ends.foldlM_split (Bus σ) Bytes (List Bytes) (fun _ _ => True) ManagedService
    (fun started service => if service.autoStart then startOne C services depth service started else pure started)
    (fun roots started _ => Known services started ∧ ∀ s ∈ roots, s.autoStart = true → Grounded services s)
    services ?step services [] [] bus rfl ⟨by simp [Known], by simp⟩
  case step =>
    rintro roots root rest started₁ bus₁ hroots ⟨hk₁, hgrounded⟩
    have hroot : root ∈ services := by
      rw [hroots]
      simp
    by_cases hauto : root.autoStart = true
    · have hend : Grounded services root ∨ Stops services root := by
        by_cases hg : Grounded services root
        · exact .inl hg
        · have hbefore : ∀ s ∈ roots, ¬ (s.autoStart = true ∧ ¬ Grounded services s) :=
            fun s hs hbad => hbad.2 (hgrounded s hs hbad.1)
          exact .inr (h root ⟨⟨hauto, hg⟩, roots, rest, hroots, hbefore⟩)
      have hlow := hshort root hroot
      rw [if_pos hauto]
      apply (startOne_visits C hr hrank depth (by omega) hroot hend hk₁).mono _ fun _ _ _ => trivial
      rintro started₂ bus₂ ⟨hk₂, hg⟩
      exact ⟨hk₂, rooted_append hgrounded fun _ => hg⟩
    · rw [if_neg hauto]
      exact Ends.ret rfl ⟨hk₁, rooted_append hgrounded fun h => absurd h hauto⟩
  have hrun : Ends (startRegistered C services depth) bus (fun _ _ => True) fun _ _ => True := by
    apply hloop.bind
    intro started₁ bus₁ _
    exact Ends.ret rfl trivial
  exact hrun.1

/-! ### Beyond every depth -/

/-- A controller that finds every unit active and never raises. -/
def quiet : UnitController Unit where
  inspect _ u := (.ok ⟨ascii "active"⟩, u)
  control _ _ u := (.ok (), u)

/-- Where no call raises, `start_one` returns for grounded services alone and raises for services
that stop alone, whatever the depth. -/
theorem startOne_quiet (hr : Registry services) (depth : ℕ) :
    ∀ {service : ManagedService} {started : List Bytes} {bus : Bus Unit}, service ∈ services →
      Known services started →
      Meets (startOne quiet services depth service started) bus
        (fun started _ => Known services started ∧ Grounded services service) fun _ _ => Stops services service := by
  induction depth with
  | zero =>
    intro service started bus _ _
    exact Meets.cut rfl
  | succ depth ih =>
    intro service started bus hs hk
    rw [startOne]
    by_cases hin : service.name ∈ started
    · rw [if_pos (List.contains_iff_mem.mpr hin)]
      exact Meets.ret rfl ⟨hk, (hk _ hin).grounded hr hs⟩
    · rw [if_neg (by simpa using hin)]
      have hloop := @Meets.foldlM (Bus Unit) Bytes (List Bytes) (fun _ _ => Stops services service) Bytes
        (fun started dependency => do
          let service ← lift (find services dependency)
          startOne quiet services depth service started)
        (fun names started _ => Known services started ∧ ∀ n ∈ names, Fine services n) service.after ?step
        service.after [] started bus rfl ⟨hk, by simp⟩
      case step =>
        rintro names name rest started₁ bus₁ hafter ⟨hk₁, hnames⟩
        have hblocks : ¬ Fine services name → Blocks services service name :=
          fun hfine => ⟨hfine, names, rest, hafter, fun n hn => not_not.mpr (hnames n hn)⟩
        by_cases hd : ∃ dependency ∈ services, dependency.name = name
        · obtain ⟨dependency, hd, rfl⟩ := hd
          rw [hr.find hd]
          apply (ih hd hk₁).mono
          · rintro started₂ bus₂ ⟨hk₂, hg⟩
            exact ⟨hk₂, fine_append hnames ⟨dependency, hd, rfl, hg⟩⟩
          · intro error bus₂ hstops
            exact .through (hblocks fun hfine => hstops.not_grounded (hfine.grounded hr hd)) hd hstops
        · rw [find_unknown hd]
          have hfine : ¬ Fine services name := by
            rintro ⟨d, hd', hname, -⟩
            exact hd ⟨d, hd', hname⟩
          exact Meets.raise rfl (.unregistered (hblocks hfine) fun d hd' hname => hd ⟨d, hd', hname⟩)
      apply hloop.bind
      rintro started₁ bus₁ ⟨hk₁, hall⟩
      have hg := Grounded.of_fine hr hall
      have hrun : (do
          let state ← quiet.inspects service
          if state.activeState ≠ ascii "active" then quiet.controls service .start else pure ()
          pure (started₁ ++ [service.name]) : Act (Bus Unit) Bytes (List Bytes)) bus₁ =
            (.ret (started₁ ++ [service.name]), ⟨(), bus₁.calls ++ [.inspect service (.ok ⟨ascii "active"⟩)]⟩) := rfl
      exact Meets.ret hrun ⟨hk₁.append ⟨service, hs, rfl, hg⟩, hg⟩

/-- Elsewhere the recursion has no end: a controller that answers every call overflows every stack. -/
theorem start_overflows (hr : Registry services) (h : ¬ Terminating services) (depth : ℕ) :
    (startRegistered quiet services depth ⟨(), []⟩).1 = .crash := by
  have hloop := @Meets.foldlM (Bus Unit) Bytes (List Bytes) (fun _ _ => Terminating services) ManagedService
    (fun started service => if service.autoStart then startOne quiet services depth service started else pure started)
    (fun roots started _ => Known services started ∧ ∀ s ∈ roots, s.autoStart = true → Grounded services s)
    services ?step services [] [] ⟨(), []⟩ rfl ⟨by simp [Known], by simp⟩
  case step =>
    rintro roots root rest started₁ bus₁ hroots ⟨hk₁, hgrounded⟩
    have hroot : root ∈ services := by
      rw [hroots]
      simp
    by_cases hauto : root.autoStart = true
    · rw [if_pos hauto]
      apply (startOne_quiet hr depth hroot hk₁).mono
      · rintro started₂ bus₂ ⟨hk₂, hg⟩
        exact ⟨hk₂, rooted_append hgrounded fun _ => hg⟩
      · intro error bus₂ hstops root' hroot'
        have hfirst : First (fun s => s.autoStart = true ∧ ¬ Grounded services s) services root :=
          ⟨⟨hauto, hstops.not_grounded⟩, roots, rest, hroots, fun s hs hbad => hbad.2 (hgrounded s hs hbad.1)⟩
        rw [hroot'.unique hfirst]
        exact hstops
    · rw [if_neg hauto]
      exact Meets.ret rfl ⟨hk₁, rooted_append hgrounded fun h => absurd h hauto⟩
  have hrun : Meets (startRegistered quiet services depth) ⟨(), []⟩ (fun _ _ => Terminating services)
      fun _ _ => Terminating services := by
    apply hloop.bind
    rintro started₁ bus₁ ⟨-, hgrounded⟩
    apply Meets.ret rfl
    intro root hroot
    exact absurd (hgrounded root hroot.mem hroot.1.1) hroot.1.2
  rcases hout : startRegistered quiet services depth ⟨(), []⟩ with ⟨outcome, bus⟩
  cases outcome with
  | ret u => exact absurd (hrun.returned u bus hout) h
  | raise error => exact absurd (hrun.raised error bus hout) h
  | crash => rfl

/-- `start_registered` ends, within a depth of the number of the registered services and whatever
the controller answers, exactly for the registries whose first root that is not grounded comes to
an unregistered name; for the others no depth is enough. -/
theorem start_terminates_iff (hr : Registry services) :
    ((∀ (σ : Type) (C : UnitController σ) (bus : Bus σ) (depth : ℕ), services.length ≤ depth →
        (startRegistered C services depth bus).1 ≠ .crash) ↔ Terminating services) ∧
      (¬ Terminating services → ∀ depth, (startRegistered quiet services depth ⟨(), []⟩).1 = .crash) := by
  refine ⟨⟨?_, ?_⟩, fun h depth => start_overflows hr h depth⟩
  · intro hends
    by_contra h
    exact hends Unit quiet ⟨(), []⟩ services.length (Nat.le_refl _) (start_overflows hr h _)
  · intro h σ C bus depth hdepth
    exact h.ends hr C hdepth bus

/-- A registry of one service that is to start after itself. -/
def selfish : List ManagedService :=
  [{ name := ascii "worker", unit := ascii "worker.service", after := [ascii "worker"] }]

theorem selfish_registered : Registry selfish := .register .empty rfl

theorem selfish_not_terminating : ¬ Terminating selfish := by
  have hground : ∀ s, Grounded selfish s → s ∉ selfish := by
    intro s hg
    induction hg with
    | intro _ _ ih =>
      intro hs
      obtain rfl := List.mem_singleton.mp hs
      exact ih _ hs (by simp) hs
  have hstop : ∀ s, Stops selfish s → s ∉ selfish := by
    intro s h
    induction h with
    | unregistered hb hn =>
      intro hs
      obtain rfl := List.mem_singleton.mp hs
      exact hn _ hs (List.mem_singleton.mp hb.mem).symm
    | through _ hd _ ih => exact absurd hd ih
  intro h
  have hs : selfish.head (by simp [selfish]) ∈ selfish := List.head_mem _
  refine hstop _ (h _ ⟨⟨rfl, fun hg => hground _ hg hs⟩, [], [], rfl, by simp⟩) hs

/-- The registry is accepted, and starting it overflows every stack. -/
theorem start_not_always_terminates :
    registerService [] (selfish.head (by simp [selfish])) = .ok selfish ∧
      ∀ depth, (startRegistered quiet selfish depth ⟨(), []⟩).1 = .crash :=
  ⟨rfl, start_overflows selfish_registered selfish_not_terminating⟩

/-- Dependencies that are shared end within the five services. -/
theorem start_terminates_diamond : (startRegistered quiet diamond 5 ⟨(), []⟩).1 ≠ .crash :=
  (start_terminates_iff diamond_acyclic.registry).1.mpr diamond_acyclic.terminating Unit quiet ⟨(), []⟩ 5 (by decide)

end Monutchee.Service
