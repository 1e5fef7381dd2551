import Monutchee.System.Privilege

/-!
# The codes of errors

`ErrorCode::none` stands in a reply for success (protocol.hpp:12-16, client.cpp:52-66), so no error
may have it. The Backend raises none with it, if its environment does not.
-/

namespace Monutchee.System
open Lib Lib.Act

def Error.Coded (e : Error) : Prop := e.code ≠ .none

/-- The errors that the environment still has to answer with. -/
def Scripted (script : List Choice) : Prop := ∀ c ∈ script, c.error.Coded

def Checks {α : Type} (x : Except Error α) : Prop := ∀ e, x = .error e → e.Coded

/-- A program whose errors have a code. -/
def Coded {α : Type} (m : Prog α) : Prop :=
  ∀ w, Scripted w.script → Meets m w (fun _ w' => Scripted w'.script) fun e w' => Scripted w'.script ∧ e.Coded

variable {α β : Type} {S : Site}

/-! ### Validation -/

theorem Checks.ok (a : α) : Checks (.ok a) := fun _ h => by cases h

theorem Checks.error {e : Error} (h : e.Coded) : Checks (.error e : Except Error α) := by
  intro e' he
  cases he
  exact h

theorem Checks.bind {x : Except Error α} {f : α → Except Error β} (hx : Checks x) (hf : ∀ a, Checks (f a)) :
    Checks (x >>= f) := by
  intro e he
  cases hcase : x with
  | ok a =>
    rw [hcase] at he
    exact hf a e he
  | error e' =>
    rw [hcase] at he
    cases he
    exact hx e hcase

theorem Checks.ite {p : Prop} [Decidable p] {x y : Except Error α} (hx : Checks x) (hy : Checks y) :
    Checks (if p then x else y) := by
  split
  · exact hx
  · exact hy

theorem Checks.forM {f : α → Except Error Unit} (hf : ∀ a, Checks (f a)) (as : List α) : Checks (as.forM f) := by
  induction as with
  | nil => exact Checks.ok ()
  | cons a as ih => exact Checks.bind (hf a) fun _ => ih

namespace Validation

theorem check_coded (b : Bool) (message : String) : Checks (check b message) := by
  unfold check
  split
  · exact Checks.ok ()
  · exact Checks.error (by simp [Error.Coded])

theorem ipv4Loop_coded (due : ℕ) (rest : Bytes) (result : BitVec 32) : Checks (ipv4Loop due rest result) := by
  induction due generalizing rest result with
  | zero => exact Checks.ok result
  | succ due ih =>
    unfold ipv4Loop
    split
    rename_i part after _
    split
    · exact Checks.error (by simp [Error.Coded])
    · exact Checks.bind (check_coded _ _) fun _ => ih _ _

theorem ipv4_coded (text : Bytes) : Checks (ipv4 text) :=
  Checks.bind (ipv4Loop_coded 4 text 0) fun _ => Checks.bind (check_coded _ _) fun _ => Checks.ok _

theorem validateStatic_coded (c : NetworkConfig) : Checks (validateStatic c) := by
  unfold validateStatic
  apply Checks.bind (check_coded _ _)
  intro _
  apply Checks.bind (check_coded _ _)
  intro _
  apply Checks.bind (ipv4_coded _)
  intro address
  extract_lets mask gatewayChecks
  have hgateway : ∀ u, Checks (gatewayChecks u) := by
    intro u
    apply Checks.ite
    · apply Checks.bind (ipv4_coded _)
      intro gateway
      apply Checks.bind (check_coded _ _)
      intro _
      exact Checks.ite (check_coded _ _) (Checks.ok ())
    · exact Checks.ok ()
  exact Checks.ite (Checks.bind (check_coded _ _) hgateway) (hgateway ())

theorem validateInterface_coded (names : List Bytes) (c : NetworkConfig) : Checks (validateInterface names c) := by
  unfold validateInterface
  apply Checks.bind (check_coded _ _)
  intro _
  apply Checks.bind (check_coded _ _)
  intro _
  apply Checks.bind (check_coded _ _)
  intro _
  apply Checks.bind (Checks.forM (fun dns => Checks.bind (ipv4_coded dns) fun _ => Checks.ok ()) _)
  intro _
  cases c.mode with
  | dhcp => exact check_coded _ _
  | staticIpv4 => exact validateStatic_coded c

theorem validateInterfaces_coded (names : List Bytes) (cs : Network) : Checks (validateInterfaces names cs) := by
  induction cs generalizing names with
  | nil => exact Checks.ok ()
  | cons c cs ih => exact Checks.bind (validateInterface_coded names c) fun _ => ih _

theorem validateNetwork_coded (configs : Network) : Checks (validateNetwork configs) := by
  unfold validateNetwork
  apply Checks.bind (check_coded _ _)
  intro _
  apply Checks.bind (check_coded _ _)
  intro _
  exact validateInterfaces_coded _ _

theorem validateServers_coded (seen servers : List Bytes) : Checks (validateServers seen servers) := by
  induction servers generalizing seen with
  | nil => exact Checks.ok ()
  | cons s ss ih =>
    unfold validateServers
    apply Checks.bind (check_coded _ _)
    intro _
    apply Checks.bind (check_coded _ _)
    intro _
    exact ih _

theorem validate_coded (c : Configuration) : Checks (validate c) := by
  unfold validate
  apply Checks.bind (check_coded _ _)
  intro _
  apply Checks.bind (check_coded _ _)
  intro _
  apply Checks.bind (check_coded _ _)
  intro _
  apply Checks.bind (check_coded _ _)
  intro _
  apply Checks.bind (check_coded _ _)
  intro _
  apply Checks.bind (validateServers_coded _ _)
  intro _
  exact validateNetwork_coded _

end Validation

/-! ### Programs -/

namespace Coded

theorem pure (a : α) : Coded (Pure.pure a : Prog α) := fun _ hw => Meets.ret rfl hw

theorem raise {e : Error} (h : e.Coded) : Coded (Act.raise e : Prog α) := fun _ hw => Meets.raise rfl ⟨hw, h⟩

theorem gets (f : World → α) : Coded (Act.gets f) := fun _ hw => Meets.ret rfl hw

theorem modify {f : World → World} (h : ∀ w, (f w).script = w.script) : Coded (Act.modify f) := by
  intro w hw
  have hscript : Scripted (f w).script := by
    rw [h w]
    exact hw
  exact Meets.ret (modify_apply f w) hscript

theorem bind {m : Prog α} {f : α → Prog β} (hm : Coded m) (hf : ∀ a, Coded (f a)) : Coded (m >>= f) :=
  fun w hw => Meets.bind (hm w hw) fun a w' hw' => hf a w' hw'

theorem require (b : Bool) {e : Error} (h : e.Coded) : Coded (Act.require b e : Prog Unit) := by
  cases b with
  | true => exact pure ()
  | false => exact raise h

theorem lift {x : Except Error α} (h : Checks x) : Coded (Act.lift x : Prog α) := by
  cases x with
  | ok a => exact pure a
  | error e => exact raise (h e rfl)

theorem ite {p : Prop} [Decidable p] {m n : Prog α} (hm : Coded m) (hn : Coded n) : Coded (if p then m else n) := by
  split
  · exact hm
  · exact hn

/-- The handler may raise what it handles. -/
theorem attempt {m : Prog α} {h : Error → Prog α} (hm : Coded m) (hh : ∀ e, e.Coded → Coded (h e)) :
    Coded (Act.attempt m h) := by
  intro w hw
  have hmeets := hm w hw
  rcases ho : m w with ⟨o, w'⟩
  cases o with
  | ret a =>
    have hrun : Act.attempt m h w = (.ret a, w') := by
      simp only [Act.attempt, ho]
    exact Meets.ret hrun (hmeets.returned a w' ho)
  | raise e =>
    have hrun : Act.attempt m h w = h e w' := by
      simp only [Act.attempt, ho]
    obtain ⟨hw', he⟩ := hmeets.raised e w' ho
    have hrest := hh e he w' hw'
    constructor
    · exact fun a w₁ ha => hrest.returned a w₁ (hrun.symm.trans ha)
    · exact fun e₁ w₁ ha => hrest.raised e₁ w₁ (hrun.symm.trans ha)
  | crash =>
    have hrun : Act.attempt m h w = (.crash, w') := by
      simp only [Act.attempt, ho]
    exact Meets.cut hrun

theorem each {f : β → Prog Unit} (hf : ∀ b, Coded (f b)) (bs : List β) : Coded (Act.each f bs) := by
  induction bs with
  | nil => exact pure ()
  | cons b bs ih => exact bind (hf b) fun _ => ih

end Coded

/-- An effect that leaves the script alone and raises what the environment gives it, or an error with
a code. -/
theorem effect_coded {op : Choice → World → Outcome Error α × World}
    (hscript : ∀ c w, (op c w).2.script = w.script)
    (hraised : ∀ c w e, (op c w).1 = .raise e → c.error.Coded → e.Coded) : Coded (effect op) := by
  intro w hw
  have hdraw : w.draw.1.error.Coded ∧ Scripted w.draw.2.script := by
    unfold World.draw
    cases hs : w.script with
    | nil =>
      refine ⟨by simp [Error.Coded], ?_⟩
      rw [hs]
      intro c hc
      cases hc
    | cons c cs =>
      rw [hs] at hw
      exact ⟨hw c (List.mem_cons_self ..), fun x hx => hw x (List.mem_cons_of_mem _ hx)⟩
  obtain ⟨herror, hrest⟩ := hdraw
  by_cases hcrash : w.draw.1.crash = true
  · apply Meets.cut
    rw [effect_apply, if_pos hcrash]
  · have hrun : effect op w = ((op w.draw.1 w.draw.2).1, (op w.draw.1 w.draw.2).2.authority w.draw.1.writes) := by
      rw [effect_apply, if_neg hcrash]
    have hafter : Scripted ((op w.draw.1 w.draw.2).2.authority w.draw.1.writes).script := by
      rw [(authority_rest _ _).2.2, hscript]
      exact hrest
    cases ho : (op w.draw.1 w.draw.2).1 with
    | ret a =>
      rw [ho] at hrun
      exact Meets.ret hrun hafter
    | raise e =>
      rw [ho] at hrun
      exact Meets.raise hrun ⟨hafter, hraised _ _ e ho herror⟩
    | crash =>
      rw [ho] at hrun
      exact Meets.cut hrun

/-- The effects that fail with the error of the environment. -/
theorem fails_coded {f : World → World} {a : Choice → α} {g : Choice → World → World}
    (hf : ∀ w, (f w).script = w.script) (hg : ∀ c w, (g c w).script = w.script) :
    Coded (effect fun c w => if c.fails then (.raise c.error, f w) else (.ret (a c), g c w)) := by
  apply effect_coded
  · intro c w
    split
    · exact hf w
    · exact hg c w
  · intro c w e he hc
    split at he
    · cases he
      exact hc
    · cases he

/-! ### The Backend -/

theorem platformCall_coded (entry : Bool → Entry) : Coded (platformCall entry) :=
  fails_coded (fun _ => rfl) fun _ _ => rfl

theorem platformPower_coded (action : PowerAction) : Coded (platformPower action) := by
  unfold platformPower
  exact fails_coded (f := fun w => w.log (.power action w.state.job (w.journal.map (·.job))))
    (g := fun _ w => w.log (.power action w.state.job (w.journal.map (·.job)))) (fun _ => rfl) fun _ _ => rfl

theorem writeJournal_coded : Coded writeJournal := by
  apply effect_coded
  · intro c w
    split
    · rfl
    · rfl
  · intro c w e he hc
    split at he
    · cases he
      exact hc
    · cases he

theorem readClock_coded : Coded readClock := by
  apply effect_coded
  · exact fun _ _ => rfl
  · intro c w e he
    cases he

theorem randomId_coded : Coded randomId := by
  apply effect_coded
  · intro c w
    split
    · rfl
    · rfl
  · intro c w e he hc
    split at he
    · cases he
      simp [Error.Coded]
    · cases he

theorem fileHash_coded : Coded (fileHash S) := by
  apply effect_coded
  · intro c w
    split
    · rfl
    · split
      · rfl
      · rfl
  · intro c w e he hc
    split at he
    · cases he
      exact hc
    · cases hd : digest S w.settings with
      | ok h =>
        rw [hd] at he
        cases he
      | error e' =>
        rw [hd] at he
        cases he
        unfold digest at hd
        split at hd
        · cases hd
        · split at hd
          · cases hd
            simp [Error.Coded]
          · cases hd

theorem storageStatus_coded (path : Bytes) : Coded (storageStatus path) := by
  apply effect_coded
  · intro c w
    split
    · rfl
    · split
      · rfl
      · rfl
      · rfl
  · intro c w e he hc
    split at he
    · cases he
      exact hc
    · split at he
      · cases he
        simp [Error.Coded]
      · cases he
        simp [Error.Coded]
      · cases he

namespace Backend

theorem setState_coded (f : State → State) (mark : List Entry) : Coded (setState f mark) :=
  Coded.modify fun _ => rfl

theorem event_coded (e : UserEvent) : Coded (event e) := Coded.modify fun _ => rfl

theorem persist_coded : Coded persist := by
  unfold persist
  apply Coded.bind (Coded.gets _)
  intro failed
  apply Coded.bind (Coded.require _ (by simp [Error.Coded, recoveryError]))
  intro _
  apply Coded.attempt writeJournal_coded
  intro e he
  apply Coded.bind
  · exact Coded.modify fun _ => rfl
  · intro _
    exact Coded.raise he

theorem idle_coded : Coded idle := by
  unfold idle
  apply Coded.bind (Coded.gets _)
  intro failed
  apply Coded.bind (Coded.require _ (by simp [Error.Coded, recoveryError]))
  intro _
  apply Coded.bind (Coded.gets _)
  intro s
  exact Coded.require _ (by simp [Error.Coded])

theorem checkId_coded (id : Bytes) : Coded (checkId id) :=
  Coded.bind (Coded.gets _) fun _ => Coded.require _ (by simp [Error.Coded])

theorem observeLink_coded (link : NetworkStatus) : Coded (observeLink S link) := by
  unfold observeLink
  apply Coded.ite
  · apply Coded.bind (Coded.gets _)
    intro carriers
    extract_lets remember
    have hremember : ∀ u, Coded (remember u) := fun _ => Coded.modify fun _ => rfl
    cases carriers.lookup link.interface with
    | some previous => exact Coded.ite (Coded.bind (event_coded _) hremember) (hremember ())
    | none => exact hremember ()
  · exact Coded.pure ()

theorem observeNetwork_coded : Coded (observeNetwork S) := by
  unfold observeNetwork
  apply Coded.attempt
  · apply Coded.bind (fails_coded (f := id) (g := fun _ w => w) (fun _ => rfl) fun _ _ => rfl)
    intro links
    apply Coded.bind
    · exact Coded.modify fun _ => rfl
    · intro _
      exact Coded.each observeLink_coded _
  · intro _ _
    exact Coded.pure ()

theorem settleNetwork_coded (commit bootstrap : Bool) (reason : Reason) :
    Coded (settleNetwork commit bootstrap reason) := by
  unfold settleNetwork
  apply Coded.bind (Coded.gets _)
  intro s
  apply Coded.bind (platformCall_coded _)
  intro _
  apply Coded.bind (setState_coded _ _)
  intro _
  apply Coded.bind persist_coded
  intro _
  exact event_coded _

theorem recoverNetwork_coded (bootstrap : Bool) : Coded (recoverNetwork S bootstrap) := by
  unfold recoverNetwork
  apply Coded.bind (Coded.gets _)
  intro s
  apply Coded.ite
  · extract_lets settle
    have hsettle : ∀ committed, Coded (settle committed) := fun _ => settleNetwork_coded _ _ _
    apply Coded.ite
    · exact Coded.bind (Coded.bind fileHash_coded fun _ => Coded.pure _) hsettle
    · exact Coded.bind (Coded.pure _) hsettle
  · exact Coded.pure ()

theorem dispatchPower_coded : Coded dispatchPower := by
  unfold dispatchPower
  apply Coded.bind (Coded.gets _)
  intro s
  apply Coded.attempt
  · apply Coded.bind (platformPower_coded _)
    intro _
    exact event_coded _
  · intro e he
    apply Coded.bind (setState_coded _ _)
    intro _
    apply Coded.bind persist_coded
    intro _
    apply Coded.bind (event_coded _)
    intro _
    exact Coded.raise he

theorem dispatch_coded : Coded dispatch := by
  unfold dispatch
  apply Coded.bind
  · exact Coded.modify fun _ => rfl
  intro _
  apply Coded.bind (setState_coded _ _)
  intro _
  apply Coded.bind persist_coded
  intro _
  exact dispatchPower_coded

theorem tick_coded : Coded (tick S) := by
  unfold tick
  apply Coded.bind (Coded.gets _)
  intro failed
  apply Coded.bind (Coded.require _ (by simp [Error.Coded, recoveryError]))
  intro _
  apply Coded.bind
  · unfold tickObserve
    apply Coded.bind readClock_coded
    intro t
    apply Coded.bind (Coded.gets _)
    intro next
    apply Coded.ite
    · apply Coded.bind readClock_coded
      intro t
      apply Coded.bind
      · exact Coded.modify fun _ => rfl
      · intro _
        exact observeNetwork_coded
    · exact Coded.pure ()
  intro _
  apply Coded.bind
  · unfold tickExpire
    apply Coded.bind (Coded.gets _)
    intro s
    apply Coded.ite
    · apply Coded.bind readClock_coded
      intro t
      exact Coded.ite (recoverNetwork_coded _) (Coded.pure ())
    · exact Coded.pure ()
  intro _
  unfold tickDispatch
  apply Coded.bind (Coded.gets _)
  intro deadline
  apply Coded.ite
  · apply Coded.bind readClock_coded
    intro t
    exact Coded.ite dispatch_coded (Coded.pure ())
  · exact Coded.pure ()

theorem applyRollback_coded (previous : Configuration) : Coded (applyRollback previous) := by
  unfold applyRollback
  apply Coded.bind (setState_coded _ _)
  intro _
  apply Coded.attempt
  · apply Coded.bind (platformCall_coded _)
    intro _
    exact Coded.bind (platformCall_coded _) fun _ => persist_coded
  · intro _ _
    exact Coded.raise (by simp [Error.Coded])

theorem checkHostname_coded (config : Configuration) : Coded (checkHostname S config) := by
  unfold checkHostname
  cases S.profile.bootPreferences with
  | some b => exact Coded.require _ (by simp [Error.Coded])
  | none => exact Coded.pure ()

theorem apply_coded (config : Configuration) : Coded (apply S config) := by
  unfold apply
  apply Coded.bind idle_coded
  intro _
  apply Coded.bind (Coded.lift (Validation.validate_coded config))
  intro _
  apply Coded.bind (checkHostname_coded config)
  intro _
  apply Coded.bind (fails_coded (f := id) (g := fun _ w => w) (fun _ => rfl) fun _ _ => rfl)
  intro _
  apply Coded.bind (Coded.gets _)
  intro s
  apply Coded.bind (Coded.require _ (by simp [Error.Coded]))
  intro _
  apply Coded.attempt
  · unfold applyForward
    apply Coded.bind (platformCall_coded _)
    intro _
    apply Coded.bind (platformCall_coded _)
    intro _
    exact Coded.bind (setState_coded _ _) fun _ => persist_coded
  · intro e he
    exact Coded.bind (applyRollback_coded _) fun _ => Coded.raise he

theorem networkTransaction_coded : Coded (networkTransaction S) := by
  unfold networkTransaction
  apply Coded.bind tick_coded
  intro _
  apply Coded.bind (Coded.gets _)
  intro s
  apply Coded.bind
  · unfold remaining
    apply Coded.ite
    · apply Coded.bind readClock_coded
      intro t
      exact Coded.ite (Coded.bind readClock_coded fun _ => Coded.pure _) (Coded.pure 0)
    · exact Coded.pure 0
  · intro ms
    exact Coded.pure _

theorem checkProposal_coded (p : NetworkProposal) : Coded (checkProposal S p) := by
  have hchanged : settingsChanged.Coded := by simp [Error.Coded, settingsChanged]
  unfold checkProposal
  apply Coded.bind idle_coded
  intro _
  apply Coded.bind (Coded.gets _)
  intro s
  apply Coded.bind (Coded.lift (Validation.validate_coded _))
  intro _
  apply Coded.bind (checkHostname_coded _)
  intro _
  apply Coded.bind (fails_coded (f := id) (g := fun _ w => w) (fun _ => rfl) fun _ _ => rfl)
  intro _
  apply Coded.bind (Coded.require _ hchanged)
  intro _
  exact Coded.bind fileHash_coded fun h => Coded.require _ hchanged

theorem beginNetwork_coded (p : NetworkProposal) (actor requestId : Bytes) :
    Coded (beginNetwork S p actor requestId) := by
  unfold beginNetwork
  apply Coded.bind (checkProposal_coded p)
  intro _
  apply Coded.bind randomId_coded
  intro id
  apply Coded.bind readClock_coded
  intro t
  apply Coded.bind (Coded.gets _)
  intro s
  apply Coded.bind (setState_coded _ _)
  intro _
  apply Coded.bind persist_coded
  intro _
  apply Coded.bind
  · apply Coded.attempt (platformCall_coded _)
    intro e he
    exact Coded.bind (settleNetwork_coded _ _ _) fun _ => Coded.raise he
  intro _
  apply Coded.bind (Coded.gets _)
  intro s
  exact Coded.bind (event_coded _) fun _ => networkTransaction_coded

theorem prepareNetworkCommit_coded (id : Bytes) : Coded (prepareNetworkCommit S id) := by
  unfold prepareNetworkCommit
  apply Coded.bind tick_coded
  intro _
  apply Coded.bind (checkId_coded id)
  intro _
  apply Coded.bind (Coded.gets _)
  intro s
  apply Coded.ite (Coded.pure ())
  apply Coded.bind fileHash_coded
  intro h
  apply Coded.bind (Coded.require _ (by simp [Error.Coded]))
  intro _
  apply Coded.bind readClock_coded
  intro t
  exact Coded.bind (setState_coded _ _) fun _ => persist_coded

theorem checkFinish_coded (commit : Bool) : Coded (checkFinish S commit) := by
  unfold checkFinish
  apply Coded.bind (Coded.gets _)
  intro s
  apply Coded.ite
  · apply Coded.bind fileHash_coded
    intro h
    exact Coded.ite (Coded.require _ (by simp [Error.Coded])) (Coded.require _ (by simp [Error.Coded]))
  · exact Coded.require _ (by simp [Error.Coded])

theorem finishNetwork_coded (id : Bytes) (commit : Bool) (actor requestId : Bytes) :
    Coded (finishNetwork S id commit actor requestId) := by
  unfold finishNetwork
  apply Coded.bind (Coded.gets _)
  intro s
  apply Coded.ite (Coded.pure ())
  apply Coded.bind (checkId_coded id)
  intro _
  apply Coded.bind (checkFinish_coded commit)
  intro _
  exact Coded.bind (setState_coded _ _) fun _ => settleNetwork_coded _ _ _

theorem acceptJob_coded (job : Job) (reset : Bool) (actor requestId : Bytes) :
    Coded (acceptJob job reset actor requestId) := by
  unfold acceptJob
  apply Coded.bind (setState_coded _ _)
  intro _
  apply Coded.bind persist_coded
  intro _
  apply Coded.bind (Coded.gets _)
  intro s
  apply Coded.bind (event_coded _)
  intro _
  apply Coded.bind readClock_coded
  intro t
  apply Coded.bind
  · exact Coded.modify fun _ => rfl
  · intro _
    exact Coded.pure _

theorem power_coded (action : PowerAction) (actor requestId : Bytes) : Coded (power action actor requestId) := by
  unfold power
  apply Coded.bind idle_coded
  intro _
  apply Coded.bind (Coded.require _ (by simp [Error.Coded]))
  intro _
  exact Coded.bind randomId_coded fun id => acceptJob_coded _ _ _ _

theorem resetDevice_coded (confirmed : Bool) (actor requestId : Bytes) :
    Coded (resetDevice S confirmed actor requestId) := by
  unfold resetDevice
  apply Coded.bind (Coded.require _ (by simp [Error.Coded]))
  intro _
  apply Coded.bind idle_coded
  intro _
  have hrest : Coded (randomId >>= fun id => acceptJob ⟨id, .deviceReset, .accepted⟩ true actor requestId) :=
    Coded.bind randomId_coded fun id => acceptJob_coded _ _ _ _
  split
  · apply Coded.bind (storageStatus_coded _)
    intro found
    exact Coded.bind (Coded.require _ (by simp [Error.Coded])) fun _ => hrest
  · exact hrest

/-- The calls that a request can make. -/
theorem call_coded {op : Op} (hboots : op.boots = false) (hstarts : op.starts = false) : Coded (call S op) := by
  cases op with
  | bootstrap => cases hboots
  | start => cases hstarts
  | tick => exact Coded.bind tick_coded fun _ => Coded.pure _
  | apply config => exact Coded.bind (apply_coded config) fun _ => Coded.pure _
  | beginNetwork p actor requestId => exact Coded.bind (beginNetwork_coded p actor requestId) fun _ => Coded.pure _
  | networkTransaction => exact Coded.bind networkTransaction_coded fun _ => Coded.pure _
  | prepareNetworkCommit id => exact Coded.bind (prepareNetworkCommit_coded id) fun _ => Coded.pure _
  | finishNetwork id commit actor requestId =>
    exact Coded.bind (finishNetwork_coded id commit actor requestId) fun _ => Coded.pure _
  | power action actor requestId => exact Coded.bind (power_coded action actor requestId) fun _ => Coded.pure _
  | resetDevice confirmed actor requestId =>
    exact Coded.bind (resetDevice_coded confirmed actor requestId) fun _ => Coded.pure _

end Backend

/-! ### Requests -/

variable {D : Daemon} {r : Request} {script : List Choice} {w w' : World} {e : Error}

theorem checkpoint_coded : Coded checkpoint := by
  apply effect_coded
  · exact fun _ _ => rfl
  · intro c w e he
    cases he

theorem perform_coded {op : Op} (hboots : op.boots = false) (hstarts : op.starts = false) (hs : Scripted script)
    (h : perform S op script w = (.raise e, w')) : e.Coded := by
  have hguarded : Coded (guarded S op) := by
    apply Coded.bind (Backend.call_coded hboots hstarts)
    intro r
    exact Coded.bind checkpoint_coded fun _ => Coded.pure r
  have hmeets := hguarded (entered op script w) hs
  unfold perform at h
  rcases hg : guarded S op (entered op script w) with ⟨o, w₁⟩
  rw [hg] at h
  cases o with
  | ret r => simp at h
  | raise e' =>
    simp only [Prod.mk.injEq, Outcome.raise.injEq] at h
    rw [← h.1]
    exact (hmeets.raised e' w₁ hg).2
  | crash => simp at h

theorem decode_coded {read : Bytes → Except Bytes α} (text : Bytes) : Checks (decode read text) := by
  unfold decode
  split
  · exact Checks.error (by simp [Error.Coded])
  · split
    · exact Checks.error (by simp [Error.Coded])
    · exact Checks.ok _

theorem Checks.map {x : Except Error α} {f : α → β} (hx : Checks x) : Checks (x.map f) := by
  intro e he
  cases hcase : x with
  | ok a =>
    rw [hcase] at he
    cases he
  | error e' =>
    rw [hcase] at he
    cases he
    exact hx e hcase

theorem query_coded (q : Query) (json : Bytes) : Checks (D.query q json) :=
  Checks.bind (decode_coded json) fun _ => Checks.ok _

theorem dispatch_coded (uid : UInt32) (name json : Bytes) : Checks (D.dispatch uid name json) := by
  unfold Daemon.dispatch
  apply Checks.ite (query_coded _ _)
  apply Checks.ite (query_coded _ _)
  apply Checks.ite (query_coded _ _)
  apply Checks.ite (query_coded _ _)
  apply Checks.ite (query_coded _ _)
  apply Checks.ite (Checks.map (decode_coded _))
  apply Checks.ite (Checks.map (decode_coded _))
  apply Checks.ite (Checks.map (decode_coded _))
  apply Checks.ite (Checks.map (decode_coded _))
  apply Checks.ite (Checks.map (decode_coded _))
  apply Checks.ite (Checks.map (decode_coded _))
  apply Checks.ite (Checks.map (decode_coded _))
  apply Checks.ite (query_coded _ _)
  exact Checks.error (by simp [Error.Coded])

theorem authorize_coded (hpeer : Checks r.peer) : Checks (D.authorize r) := by
  unfold Daemon.authorize
  apply Checks.bind hpeer
  intro uid
  apply Checks.ite
  · cases r.body with
    | none => exact Checks.error (by simp [Error.Coded])
    | some json => exact dispatch_coded uid r.member json
  · exact Checks.error (by simp [Error.Coded])

/-- An error that a request ends with has a code. -/
theorem request_coded (hpeer : Checks r.peer) (hs : Scripted script)
    (h : D.request r script w = (.raise e, w')) : e.Coded := by
  unfold Daemon.request at h
  cases ha : D.authorize r with
  | error e' =>
    rw [ha] at h
    simp only [Prod.mk.injEq, Outcome.raise.injEq] at h
    rw [← h.1]
    exact authorize_coded hpeer e' ha
  | ok a =>
    rw [ha] at h
    cases a with
    | query q =>
      have hq : Coded (Daemon.answer q) := by
        unfold Daemon.answer
        apply Coded.ite (Coded.pure _)
        exact fails_coded (f := id) (g := fun _ w => w) (fun _ => rfl) fun _ _ => rfl
      exact ((hq _ hs).raised e w' h).2
    | call op =>
      have hp : perform D.site op script w = (.raise e, w') := by
        rcases hp : perform D.site op script w with ⟨o, w₁⟩
        simp only [hp] at h
        cases o with
        | ret r => simp at h
        | raise e' => simpa using h
        | crash => simp at h
      obtain ⟨hboots, hstarts⟩ := authorize_boots ha
      exact perform_coded hboots hstarts hs hp

end Monutchee.System
