import Monutchee.System.Closure
import Monutchee.System.Factory

/-!
# Configurations stay valid

Every configuration that a Backend holds or has journaled passes `validate`, whatever the
profile, the boot preferences, the platform and the callers bring in, and once a device has
booted with boot preferences it keeps the managed name. A process in which `bootstrap` or
`start` raises has ended: `main` returns.
-/

namespace Monutchee.System
open Lib Lib.Act Validation

variable {S : Site} {L : Limits} {w w' : World}

/-! ### Runs in which a failed bootstrap or start ends the process -/

def Op.ends : Op → Bool
  | .bootstrap | .start => true
  | _ => false

def processStep (S : Site) (w : World) : Event → World
  | .call op script =>
    if w.alive then
      match perform S op script w with
      | (.raise _, w') => { w' with alive := w'.alive && !op.ends }
      | (_, w') => w'
    else w
  | e => step S w e

def processRun (S : Site) (w : World) (es : List Event) : World := es.foldl (processStep S) w

theorem processRun_append (S : Site) (w : World) (es fs : List Event) :
    processRun S w (es ++ fs) = processRun S (processRun S w es) fs := by
  simp [processRun]

/-- The choices of the environment in an event. -/
def Event.script : Event → List Choice
  | .restart script | .call _ script => script
  | _ => []

/-- An event that brings in only what the limits say. -/
def Event.within (L : Limits) (e : Event) : Prop :=
  (∀ c ∈ e.script, L.id c.id) ∧ ∀ op script, e = .call op script → L.grants op

theorem process_call (hs : Surroundings S L) {op : Op} {script : List Choice}
    (hi : ∀ c ∈ script, L.id c.id) (hl : L.grants op) (ha : w.alive = true) (hw : Safe S L w) :
    Sustained S L (processStep S w (.call op script)) := by
  rw [processStep, if_pos ha]
  by_cases hop : op.starts = true
  · have he : op = .start := by
      cases op with
      | start => rfl
      | _ => simp [Op.starts] at hop
    subst he
    obtain ⟨hd, hr⟩ := perform_start hs hi hw
    rcases hp : perform S .start script w with ⟨o, w'⟩
    rw [hp] at hd
    cases o with
    | ret r => exact Sustained.of_safe (hr r w' hp)
    | raise e => exact Sustained.of_dead (hd.agree ⟨rfl, rfl, rfl, rfl, rfl⟩) (by simp [Op.ends])
    | crash =>
      refine Sustained.of_dead hd ?_
      unfold perform at hp
      split at hp
      · simp at hp
      · simp at hp
      · injection hp with _ hp
        rw [← hp]
  · have hw' := perform_safe hs (by simpa using hop) hl hi hw
    rcases hp : perform S op script w with ⟨o, w'⟩
    rw [hp] at hw'
    cases o with
    | ret r => exact Sustained.of_safe hw'
    | raise e => exact Sustained.of_safe (hw'.agree ⟨rfl, rfl, rfl, rfl, rfl⟩)
    | crash => exact Sustained.of_safe hw'

theorem process_step (hs : Surroundings S L) {e : Event} (he : e.within L)
    (hw : Sustained S L w) : Sustained S L (processStep S w e) := by
  cases e with
  | restart script => exact restart_sustained hs he.1 hw.durable
  | call op script =>
    by_cases ha : w.alive = true
    · exact process_call hs he.1 (he.2 op script rfl) ha (hw.running ha)
    · rw [processStep, if_neg ha]
      exact hw
  | crash => exact Sustained.of_dead (hw.durable.agree ⟨rfl, rfl, rfl, rfl, rfl⟩) rfl
  | write content =>
    have ha : Agree w (w.write content) := ⟨rfl, rfl, rfl, rfl, rfl⟩
    exact ⟨hw.durable.agree ha, fun h => (hw.running h).agree ha⟩
  | status file =>
    have ha : Agree w { w with status := file } := ⟨rfl, rfl, rfl, rfl, rfl⟩
    exact ⟨hw.durable.agree ha, fun h => (hw.running h).agree ha⟩

theorem process_run (hs : Surroundings S L) {es : List Event} (he : ∀ e ∈ es, e.within L)
    (hw : Sustained S L w) : Sustained S L (processRun S w es) := by
  induction es generalizing w with
  | nil => exact hw
  | cons e es ih =>
    apply ih fun x hx => he x (List.mem_cons_of_mem _ hx)
    exact process_step hs (he e (List.mem_cons_self ..)) hw

theorem fresh_sustained (settings : Option Bytes) (tree : List Bytes) (status : StatusFile)
    (hB : ¬L.booted) : Sustained S L (fresh settings tree status) := by
  refine Sustained.of_dead ⟨?_, fun h => absurd h hB, ?_, ?_⟩ rfl
  · intro d hd
    simp [fresh] at hd
  · intro e he
    simp [fresh] at he
  · intro c hc
    simp [fresh] at hc

/-! ### Profiles from the loaders -/

/-- What the loader of the boot preferences establishes for its own file; a profile file that
carries boot preferences itself is not checked for it. -/
def Consistent (P : Profile) : Prop :=
  ∀ b, P.bootPreferences = some b →
    validate b.initial = .ok () ∧ P.defaults.system.hostname = b.managedHostname

theorem loadBootPreferences_sound {raw p : Product} {f : Except Error (PolicyFile BootPreferences)}
    (h : loadBootPreferences raw f = .ok p) : Sound p.profile := by
  unfold loadBootPreferences at h
  obtain ⟨file, -, h⟩ := bind_ok.mp h
  obtain ⟨boot, -, h⟩ := bind_ok.mp h
  obtain ⟨-, h⟩ := then_ok.mp h
  obtain ⟨hf, h⟩ := then_ok.mp h
  obtain ⟨hi, h⟩ := then_ok.mp h
  obtain ⟨-, h⟩ := then_ok.mp h
  obtain ⟨-, h⟩ := then_ok.mp h
  injection h with h
  subst h
  refine ⟨hf, ?_, ?_⟩
  · intro b hb
    injection hb with hb
    rw [← hb]
    exact hi
  · intro b hb
    injection hb with hb
    rw [← hb]
    rfl

/-- The two loaders in the order of main. -/
def loadProduct (file : Except Error (PolicyFile Product))
    (preferences : Option (Except Error (PolicyFile BootPreferences))) : Except Error Product := do
  let raw ← loadProfile file
  match preferences with
  | none => .ok raw
  | some f => loadBootPreferences raw f

theorem loadProduct_sound {file : Except Error (PolicyFile Product)}
    {preferences : Option (Except Error (PolicyFile BootPreferences))} {p : Product}
    (h : loadProduct file preferences = .ok p) (hc : preferences = none → Consistent p.profile) :
    Sound p.profile := by
  obtain ⟨raw, hraw, h⟩ := bind_ok.mp h
  cases preferences with
  | none =>
    injection h with h
    subst h
    exact ⟨Native.loadProfile_defaults hraw, fun b hb => (hc rfl b hb).1, fun b hb => (hc rfl b hb).2⟩
  | some f => exact loadBootPreferences_sound h

/-! ### The managed name -/

/-- Nothing is asked of callers, ids and events. -/
def unlimited : Limits := {}

def bootedLimits : Limits := { booted := True }

theorem unlimited_surroundings (hs : Sound S.profile) : Surroundings S unlimited :=
  ⟨fun _ => hs, fun _ => trivial, trivial, trivial, trivial, fun h => absurd h id, fun _ _ _ _ => trivial, fun _ _ => trivial,
    fun _ _ _ => trivial, fun _ _ _ => trivial, fun _ _ _ => trivial, fun _ _ _ => trivial,
    fun _ _ => trivial, fun _ _ => trivial⟩

theorem booted_surroundings (hs : Sound S.profile)
    (hr : ∀ p ∈ S.profile.resetPaths, inside p S.journalPath = false) : Surroundings S bootedLimits :=
  ⟨fun _ => hs, fun _ => trivial, trivial, trivial, trivial, fun _ => hr, fun _ _ _ _ => trivial, fun _ _ => trivial,
    fun _ _ _ => trivial, fun _ _ _ => trivial, fun _ _ _ => trivial, fun _ _ _ => trivial,
    fun _ _ => trivial, fun _ _ => trivial⟩

theorem within_of_free (hid : ∀ id, L.id id) (hn : ∀ a r, L.network a r) (hj : ∀ a r, L.job a r)
    (e : Event) : e.within L := by
  refine ⟨fun c _ => hid c.id, ?_⟩
  intro op script _
  cases op with
  | beginNetwork p actor requestId => exact hn actor requestId
  | finishNetwork id commit actor requestId => exact hn actor requestId
  | power action actor requestId => exact hj actor requestId
  | resetDevice confirmed actor requestId => exact hj actor requestId
  | _ => trivial

theorem unlimited_within (e : Event) : e.within unlimited :=
  within_of_free (fun _ => trivial) (fun _ _ => trivial) (fun _ _ => trivial) e

theorem booted_within (e : Event) : e.within bootedLimits :=
  within_of_free (fun _ => trivial) (fun _ _ => trivial) (fun _ _ => trivial) e

theorem wellFormed_named {P : Profile} {s : State} (h : WellFormed P unlimited s) (hn : Named P s) :
    WellFormed P bootedLimits s := by
  have hp := h.pending
  exact ⟨h.valid, ⟨hp.network, hp.previous, hp.message, trivial, hp.previousHash, hp.candidateHash,
    hp.remaining, hp.deadline, trivial⟩, trivial, trivial, h.action, fun _ => hn⟩

theorem bootstrapHostname_ret {b : BootPreferences} {u : Unit}
    (h : Backend.bootstrapHostname b w = (.ret u, w')) :
    w'.state = w.state.setHostname b.managedHostname ∧ w'.journal = some w'.state := by
  obtain ⟨_, w₁, h₁, h⟩ := bind_ret h
  injection h₁ with _ h₁
  subst h₁
  obtain ⟨_, w₂, h₂, h⟩ := bind_ret h
  have hf := platformCall_ret h₂
  have hp := Backend.persist_ret h
  rw [hp.state, hp.journal, hf.state]
  exact ⟨rfl, rfl⟩

/-- A bootstrap that returned has journaled the managed name. -/
theorem bootstrap_named (hs : Surroundings S unlimited) {b : BootPreferences}
    (hb : S.profile.bootPreferences = some b) {script : List Choice} {r : Backend.Reply}
    (hw : Safe S unlimited w) (h : perform S .bootstrap script w = (.ret r, w')) :
    Named S.profile w'.state ∧ w'.journal = some w'.state := by
  unfold perform at h
  rcases hg : guarded S .bootstrap (entered .bootstrap script w) with ⟨o, w₁⟩
  rw [hg] at h
  cases o with
  | ret r' =>
    injection h with _ h
    subst h
    obtain ⟨_, w₂, hc, hk⟩ := bind_ret hg
    obtain ⟨_, w₃, hboot, hd⟩ := bind_ret hc
    injection hd with _ hd
    subst hd
    obtain ⟨_, w₄, hp, hd⟩ := bind_ret hk
    injection hd with _ hd
    subst hd
    have hf := (checkpoint_spec (S := S) w₃).post _ _ hp
    rw [Backend.bootstrap_eq, hb] at hboot
    obtain ⟨_, w₅, hbranch, hname⟩ := bind_ret hboot
    have hi := (Backend.bootstrapBranch_upholds hs (hw.enter .bootstrap fun _ _ => trivial)).post
      _ _ hbranch (by rw [hb]; rfl)
    obtain ⟨hst, hj⟩ := bootstrapHostname_ret hname
    have hst₄ : w₄.state = w₅.state.setHostname b.managedHostname := hf.state.trans hst
    refine ⟨⟨?_, ?_⟩, ?_⟩
    · change w₄.state.initialized = true
      rw [hst₄]
      exact hi
    · intro b' hb'
      rw [hb] at hb'
      injection hb' with hb'
      change w₄.state.configuration.system.hostname = b'.managedHostname
      rw [hst₄, ← hb']
      rfl
    · change w₄.journal = some w₄.state
      rw [hf.journal, hf.state]
      exact hj
  | raise e => simp at h
  | crash => simp at h

theorem booted_safe (hs : Surroundings S unlimited) {b : BootPreferences}
    (hb : S.profile.bootPreferences = some b) {script : List Choice} {r : Backend.Reply}
    (hw : Safe S unlimited w) (h : perform S .bootstrap script w = (.ret r, w')) :
    Safe S bootedLimits w' := by
  have hk : Safe S unlimited (perform S .bootstrap script w).2 :=
    perform_safe hs rfl trivial (fun _ _ => trivial) hw
  rw [h] at hk
  obtain ⟨hn, hj⟩ := bootstrap_named hs hb hw h
  have hm := wellFormed_named hk.memory hn
  refine ⟨⟨?_, ?_, fun _ _ => trivial, fun _ _ => trivial⟩, hm, hk.armed⟩
  · intro d hd
    rw [hj] at hd
    injection hd with hd
    rw [← hd]
    exact hm
  · intro _
    rw [hj]
    rfl

/-- The configuration of the live Backend and that of the journal. -/
structure AllConfigurations (p : Configuration → Prop) (w : World) : Prop where
  memory : w.alive = true → p w.state.configuration
  journal : ∀ d, w.journal = some d → p d.configuration

/-- Every configuration is valid, and after a bootstrap with boot preferences has returned every
configuration carries the managed name, provided that no reset path holds the journal and that
boot preferences which the profile file carries itself are consistent with its defaults. -/
theorem configurations_wellformed (file : Except Error (PolicyFile Product))
    (preferences : Option (Except Error (PolicyFile BootPreferences))) (p : Product) (S : Site)
    (settings : Option Bytes) (tree : List Bytes) (status : StatusFile) (es : List Event)
    (hload : loadProduct file preferences = .ok p) (hprofile : S.profile = p.profile)
    (hconsistent : preferences = none → Consistent p.profile)
    (hreset : S.profile.bootPreferences.isSome = true →
      ∀ path ∈ S.profile.resetPaths, inside path S.journalPath = false) :
    AllConfigurations (fun c => validate c = .ok ()) (processRun S (fresh settings tree status) es) ∧
    ∀ us script vs r b, es = us ++ .call .bootstrap script :: vs →
      (processRun S (fresh settings tree status) us).alive = true →
      (perform S .bootstrap script (processRun S (fresh settings tree status) us)).1 = .ret r →
      S.profile.bootPreferences = some b →
      AllConfigurations (fun c => c.system.hostname = b.managedHostname)
        (processRun S (fresh settings tree status) es) := by
  have hsound : Sound S.profile := by
    rw [hprofile]
    exact loadProduct_sound hload hconsistent
  have hs := unlimited_surroundings hsound
  have hrun : ∀ es, Sustained S unlimited (processRun S (fresh settings tree status) es) := fun es =>
    process_run hs (fun e _ => unlimited_within e) (fresh_sustained settings tree status id)
  refine ⟨⟨fun ha => ((hrun es).running ha).memory.valid trivial,
    fun d hd => ((hrun es).durable.stored d hd).valid trivial⟩, ?_⟩
  rintro us script vs r b rfl ha hr hb
  have hboot := booted_surroundings hsound (hreset (by rw [hb]; rfl))
  rw [processRun_append]
  generalize hu : processRun S (fresh settings tree status) us = u at ha hr ⊢
  have hw : Safe S unlimited u := by
    have := (hrun us).running
    rw [hu] at this
    exact this ha
  rcases hp : perform S .bootstrap script u with ⟨o, u'⟩
  rw [hp] at hr
  have ho : o = .ret r := hr
  subst ho
  have hstep : processStep S u (.call .bootstrap script) = u' := by
    rw [processStep, if_pos ha, hp]
  have hfirst : Sustained S bootedLimits (processStep S u (.call .bootstrap script)) := by
    rw [hstep]
    exact Sustained.of_safe (booted_safe hs hb hw hp)
  have hlast : Sustained S bootedLimits
      (processRun S (processStep S u (.call .bootstrap script)) vs) :=
    process_run hboot (fun e _ => booted_within e) hfirst
  exact ⟨fun ha => ((hlast.running ha).memory.named trivial).2 b hb,
    fun d hd => ((hlast.durable.stored d hd).named trivial).2 b hb⟩

namespace Fixture

/-- The product of the tests as its files describe it, with the paths that a reset deletes. -/
def shipped (resetPaths : List Bytes) : Product where
  settingsUser := ascii "settings"
  controlUser := ascii "control"
  stateDirectory := ascii "/test/private"
  activeSettings := ascii "/test/product/active.json"
  interfaces := [⟨ascii "end0", []⟩]
  defaults := config
  resetPaths := resetPaths

def bootFile : BootPreferences := { factory := config, initial := config, managedHostname := ascii "mnc-7" }

/-- The boot preferences as the loader leaves them. -/
def named : Configuration := withHostname config (ascii "mnc-7")

def installed (resetPaths : List Bytes) : Product :=
  { shipped resetPaths with
    defaults := named
    bootPreferences := some { bootFile with factory := named, initial := named } }

def installedSite (resetPaths : List Bytes) : Site := ⟨(installed resetPaths).profile, sha256⟩

/-- A first boot, and a start of the service in a second process. -/
def booted : List Event := [.restart [], .call .bootstrap [], .restart [], .call .start []]

/-- A reset is asked for and the process ends; the next boot is cut off after its first removal. -/
def resetCut : List Event :=
  [.call (.resetDevice true (ascii "web") []) [{ id := id }], .restart [],
    .call .bootstrap [{}, { crash := true }], .restart [], .call .start [{ config := config }]]

end Fixture

open Fixture

theorem configurations_wellformed_reset :
    loadProduct (.ok { content := .ok (shipped [ascii "/test/product"]) })
        (some (.ok { content := .ok bootFile })) = .ok (installed [ascii "/test/product"]) ∧
    AllConfigurations (fun c => validate c = .ok ())
      (processRun (installedSite [ascii "/test/product"]) device (booted ++ resetCut)) ∧
    AllConfigurations (fun c => c.system.hostname = ascii "mnc-7")
      (processRun (installedSite [ascii "/test/product"]) device (booted ++ resetCut)) := by
  have hload : loadProduct (.ok { content := .ok (shipped [ascii "/test/product"]) })
      (some (.ok { content := .ok bootFile })) = .ok (installed [ascii "/test/product"]) := by
    decide
  have hreset : ∀ path ∈ (installedSite [ascii "/test/product"]).profile.resetPaths,
      inside path (installedSite [ascii "/test/product"]).journalPath = false := by decide
  have h := configurations_wellformed _ _ _ (installedSite [ascii "/test/product"]) (some previous) []
    .missing (booted ++ resetCut) hload rfl (by simp) fun _ => hreset
  refine ⟨hload, h.1, ?_⟩
  exact h.2 [.restart []] [] _ .done _ rfl (by decide) (by decide) rfl

/-- A reset path that is the state directory, with a separator at its end, passes the loader's
test. The boot that completes the reset may then stop with the journal gone; the device starts
as a new one, and discovers another name. -/
theorem managed_name_lost :
    loadProduct (.ok { content := .ok (shipped [ascii "/test/private/"]) })
        (some (.ok { content := .ok bootFile })) = .ok (installed [ascii "/test/private/"]) ∧
    (processRun (installedSite [ascii "/test/private/"]) device [.restart []]).alive = true ∧
    (perform (installedSite [ascii "/test/private/"]) .bootstrap []
      (processRun (installedSite [ascii "/test/private/"]) device [.restart []])).1 = .ret .done ∧
    (processRun (installedSite [ascii "/test/private/"]) device (booted ++ resetCut)).alive = true ∧
    (processRun (installedSite [ascii "/test/private/"]) device
      (booted ++ resetCut)).state.configuration.system.hostname = ascii "mnc" := by
  decide

-- Boot preferences inside the profile file are decoded with it and not checked: a name that no
-- configuration may have is journaled by the first boot.
example :
    let raw := { shipped [] with bootPreferences := some { initial := withHostname config [45] } }
    loadProduct (.ok { content := .ok raw }) none = .ok raw ∧
      (processRun ⟨raw.profile, sha256⟩ device [.restart [], .call .bootstrap [{}, {}, {}, {}, { crash := true }]]).journal.any
        (fun d => validate d.configuration != .ok ()) = true := by
  decide

end Monutchee.System
