import Monutchee.System.Clock

/-!
# Factory defaults of an accepted profile

The reset branch of bootstrap applies `profile.defaults` through the native adapter. The
loader validates the defaults, the adapter checks them against the rest of the profile; here
is what an accepted profile must say for the adapter to accept it too.
-/

namespace Monutchee.System.Native
open Lib Lib.Act Validation

/-- The policy calls of the reset branch (storage.cpp:274-276) on the native adapter. -/
def factoryPolicy (p : Product) (faults : Faults) : Native Unit := do
  network p p.defaults.system.network true faults
  sshBootPolicy faults
  clockBootPolicy p p.defaults.time faults

/-- Every file, D-Bus and hardware operation succeeds. -/
def faultless : Faults := fun _ => .none

/-! ### Checks and steps that return -/

/-- One interface passes when the policy names it and it is valid by itself. -/
theorem writeInterface_returns {p : Product} {s : Step} {c : NetworkConfig} (m : Machine)
    (hp : c.interface ∈ p.interfaceNames) (hv : validateNetwork [c] = .ok ()) :
    writeInterface p (faultless s) c m = (.ret (), m) := by
  have hi : interfacePolicy p c.interface = .ok () := by
    unfold interfacePolicy
    rw [check_ok, List.contains_iff_mem]
    exact hp
  unfold writeInterface
  rw [hi, hv]
  rfl

theorem writeInterfaces_return {p : Product} (cs : Network) (i : ℕ) (m : Machine)
    (hp : ∀ c ∈ cs, c.interface ∈ p.interfaceNames) (hv : ∀ c ∈ cs, validateNetwork [c] = .ok ()) :
    each (fun (c, i) => writeInterface p (faultless (.networkFile i)) c) (cs.zipIdx i) m =
      (.ret (), m) := by
  induction cs generalizing i with
  | nil => rfl
  | cons c cs ih =>
    rw [List.zipIdx_cons]
    have hc := writeInterface_returns (s := .networkFile i) m (hp c (List.mem_cons_self ..))
      (hv c (List.mem_cons_self ..))
    exact (bind_of_ret hc).trans (ih (i + 1) (fun x hx => hp x (List.mem_cons_of_mem _ hx))
      fun x hx => hv x (List.mem_cons_of_mem _ hx))

/-- What a network call that returned has found. -/
theorem writeInterfaces_ret {p : Product} (cs : Network) (i : ℕ) {m m' : Machine} {u : Unit}
    (h : each (fun (c, i) => writeInterface p (faultless (.networkFile i)) c) (cs.zipIdx i) m =
      (.ret u, m')) : ∀ c ∈ cs, c.interface ∈ p.interfaceNames := by
  induction cs generalizing i m with
  | nil => simp
  | cons c cs ih =>
    rw [List.zipIdx_cons] at h
    obtain ⟨_, m₁, h₁, h₂⟩ := bind_ret h
    obtain ⟨_, m₂, h₃, _⟩ := bind_ret h₁
    have hp : c.interface ∈ p.interfaceNames := by
      have := (lift_ret h₃).1
      unfold interfacePolicy at this
      rwa [check_ok, List.contains_iff_mem] at this
    intro x hx
    rcases List.mem_cons.mp hx with rfl | hx
    · exact hp
    · exact ih (i + 1) h₂ x hx

/-! ### The defaults against the rest of the profile -/

/-- As many interfaces as the policy has, each of them the policy's, and units for IRIG. -/
structure Matches (p : Product) : Prop where
  count : p.defaults.system.network.length = p.interfaces.length
  managed : ∀ c ∈ p.defaults.system.network, c.interface ∈ p.interfaceNames
  irig : p.defaults.time.synchronization = ascii "irig" → p.irigUnits ≠ []

/-- Distinct valid names, as many as the policy has and all among them, are the policy's. -/
theorem Matches.names {p : Product} (h : Matches p)
    (hv : validateNetwork p.defaults.system.network = .ok ()) :
    ∀ port ∈ p.interfaceNames, validInterfaceName port = true := by
  obtain ⟨hall, hnodup, _⟩ := validateInterfaces_mem (validateNetwork_ok.mp hv).2.2
  have hsub : p.defaults.system.network.map (·.interface) ⊆ p.interfaceNames := by
    intro x hx
    obtain ⟨c, hc, rfl⟩ := List.mem_map.mp hx
    exact h.managed c hc
  have hlen : p.interfaceNames.length ≤ (p.defaults.system.network.map (·.interface)).length := by
    rw [List.length_map, h.count, Product.interfaceNames, List.length_map]
  have hperm := (hnodup.subperm hsub).perm_of_length_le hlen
  intro port hport
  obtain ⟨c, hc, rfl⟩ := List.mem_map.mp (hperm.mem_iff.mpr hport)
  exact (hall c hc).1

theorem loadProfile_defaults {file : Except Error (PolicyFile Product)} {p : Product}
    (h : loadProfile file = .ok p) : validate p.defaults = .ok () := by
  unfold loadProfile at h
  rw [bind_ok] at h
  obtain ⟨f, _, h⟩ := h
  rw [bind_ok] at h
  obtain ⟨q, _, h⟩ := h
  simp only [then_ok] at h
  obtain ⟨hv, _, _, _, _, h⟩ := h
  injection h with h
  rw [← h]
  exact hv

theorem validate_time {t : TimePreferences} (h : ValidTime t) : validate { time := t } = .ok () := by
  have hname : validHostname (ascii "mnc") = true := by decide
  rw [validate_ok]
  exact ⟨hname, h, rfl⟩

/-- Both zone checks ask no more than validation does. -/
theorem checkZone_ok {t : TimePreferences} (h : ValidTime t) : checkZone t.timezone = .ok () := by
  have hz := h.timezone
  unfold validTimezone at hz
  unfold checkZone
  rw [check_ok]
  simp only [Bool.and_eq_true] at hz ⊢
  exact ⟨hz.1.1.2, hz.1.2⟩

theorem checkIrig_ok {p : Product} {t : TimePreferences} :
    checkIrig p t = .ok () ↔ (t.synchronization = ascii "irig" → p.irigUnits ≠ []) := by
  unfold checkIrig
  by_cases h : t.synchronization = ascii "irig" ∧ p.irigUnits = []
  · rw [if_pos h]
    simp [h.1, h.2]
  · rw [if_neg h]
    simpa using h

theorem writeClockPolicy_returns {p : Product} {t : TimePreferences} (m : Machine)
    (ht : ValidTime t) (hi : t.synchronization = ascii "irig" → p.irigUnits ≠ [])
    (hn : ∀ port ∈ p.interfaceNames, validInterfaceName port = true) :
    ∃ r m', writeClockPolicy p t faultless m = (.ret r, m') := by
  unfold writeClockPolicy
  rw [validate_time ht, checkIrig_ok.mpr hi]
  have hservers : ∃ b m', writeServers (faultless .servers) t m = (.ret b, m') := by
    unfold writeServers
    rw [gets_bind]
    split
    · exact ⟨false, m, rfl⟩
    · exact ⟨true, _, rfl⟩
  obtain ⟨b, m₁, h₁⟩ := hservers
  obtain ⟨b', m₂, h₂, _⟩ := writePorts_completed t 0 p.interfaceNames
    (show ∀ i, faultless (.port i) = .none from fun _ => rfl) hn m₁
  exact ⟨⟨b, b'⟩, m₂, (bind_of_ret h₁).trans ((bind_of_ret h₂).trans rfl)⟩

theorem writeClockPolicy_irig {p : Product} {t : TimePreferences} {faults : Faults}
    {m m' : Machine} {r : ClockPolicyChanges} (h : writeClockPolicy p t faults m = (.ret r, m')) :
    t.synchronization = ascii "irig" → p.irigUnits ≠ [] := by
  unfold writeClockPolicy at h
  obtain ⟨_, m₁, _, h⟩ := bind_ret h
  obtain ⟨_, m₂, h₂, _⟩ := bind_ret h
  exact checkIrig_ok.mp (lift_ret h₂).1

/-- The clock policy after its own timezone step. -/
theorem clockBootPolicy_returns {p : Product} {t : TimePreferences} (m : Machine)
    (ht : ValidTime t) (hi : t.synchronization = ascii "irig" → p.irigUnits ≠ [])
    (hn : ∀ port ∈ p.interfaceNames, validInterfaceName port = true) :
    ∃ m', clockBootPolicy p t faultless m = (.ret (), m') := by
  obtain ⟨r, m', h⟩ := writeClockPolicy_returns m ht hi hn
  have hzone : bootTimezone p t faultless m = (.ret (), m) := by
    unfold bootTimezone
    rw [checkZone_ok ht]
    split
    · rfl
    · rfl
  exact ⟨m', (bind_of_ret hzone).trans ((bind_of_ret h).trans rfl)⟩

theorem clockBootPolicy_irig {p : Product} {t : TimePreferences} {faults : Faults}
    {m m' : Machine} {u : Unit} (h : clockBootPolicy p t faults m = (.ret u, m')) :
    t.synchronization = ascii "irig" → p.irigUnits ≠ [] := by
  unfold clockBootPolicy at h
  obtain ⟨_, m₁, _, h⟩ := bind_ret h
  obtain ⟨r, m₂, h₂, _⟩ := bind_ret h
  exact writeClockPolicy_irig h₂

/-- An accepted profile can complete a factory reset exactly when its defaults match the rest
of it. -/
theorem factory_reset_accepted (file : Except Error (PolicyFile Product)) (p : Product)
    (h : loadProfile file = .ok p) (m : Machine) :
    (∃ m', factoryPolicy p faultless m = (.ret (), m')) ↔ Matches p := by
  obtain ⟨_, htime, hnet⟩ := validate_ok.mp (loadProfile_defaults h)
  constructor
  · rintro ⟨m', hp⟩
    unfold factoryPolicy at hp
    obtain ⟨_, m₁, hnetwork, hp⟩ := bind_ret hp
    obtain ⟨_, m₂, _, hclock⟩ := bind_ret hp
    unfold network at hnetwork
    obtain ⟨_, m₃, _, hnetwork⟩ := bind_ret hnetwork
    obtain ⟨_, m₄, hcount, hnetwork⟩ := bind_ret hnetwork
    obtain ⟨_, m₅, hloop, _⟩ := bind_ret hnetwork
    have hlength := (lift_ret hcount).1
    rw [check_ok, beq_iff_eq] at hlength
    exact ⟨hlength, writeInterfaces_ret _ 0 hloop, clockBootPolicy_irig hclock⟩
  · intro hm
    have hloop := writeInterfaces_return (p := p) p.defaults.system.network 0 m hm.managed
      fun c hc => validateNetwork_one hnet hc
    have hnetwork : network p p.defaults.system.network true faultless m = (.ret (), m) := by
      unfold network
      rw [hnet, hm.count, beq_self_eq_true]
      exact (bind_of_ret hloop).trans rfl
    obtain ⟨m', hclock⟩ := clockBootPolicy_returns m htime hm.irig (hm.names hnet)
    exact ⟨m', (bind_of_ret hnetwork).trans hclock⟩

namespace Fixture

/-- A profile with one managed interface whose defaults configure it. -/
def complete : Product where
  settingsUser := ascii "mnc-settings"
  controlUser := ascii "mnc-control"
  stateDirectory := ascii "/test/private"
  activeSettings := ascii "/test/product/active.json"
  interfaces := [{ name := ascii "end0" }]
  defaults := { system := { network := [{ interface := ascii "end0" }] } }
  resetPaths := [ascii "/test/product"]

/-- The same with no interface in its defaults. -/
def bare : Product := { complete with defaults := {} }

end Fixture

theorem factory_reset_complete :
    loadProfile (.ok { content := .ok Fixture.complete }) = .ok Fixture.complete ∧
      ∃ m', factoryPolicy Fixture.complete faultless {} = (.ret (), m') := by
  have h : loadProfile (.ok { content := .ok Fixture.complete }) = .ok Fixture.complete := by
    decide
  refine ⟨h, (factory_reset_accepted _ _ h {}).mpr ⟨rfl, ?_, ?_⟩⟩
  · intro c hc
    rw [List.mem_singleton.mp hc]
    decide
  · intro hi
    exact absurd hi (by decide)

/-- The loader accepts defaults without the managed interface; their reset never completes. -/
theorem factory_reset_stuck :
    loadProfile (.ok { content := .ok Fixture.bare }) = .ok Fixture.bare ∧
      Fixture.bare.bootPreferences = none ∧
      (factoryPolicy Fixture.bare faultless {}).1 =
        .raise ⟨.invalidArgument, ascii "supply all managed interfaces"⟩ := by
  decide

end Monutchee.System.Native
