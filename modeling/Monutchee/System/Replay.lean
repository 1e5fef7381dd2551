import Monutchee.System.Latch

/-!
# Bootstrap after attempts that were cut off

bootstrap writes the journal up to twice and deletes and applies in between, so an attempt
may stop anywhere and the next one may take another branch. `outcome` says what a bootstrap
makes of the device, branch by branch; it is a function of what is visible outside the
process. Every single effect of bootstrap keeps that function's value, so an attempt that
returns ends where the first one would have, however many were cut off before it. One
branch is the exception: boot preferences adopted with an open transaction, or with an
empty PTP port that the next constructor fills in.
-/

namespace Monutchee.System
open Lib Lib.Act Relation
open Backend (migrate loaded)

variable {S : Site} {w w' : World} {s m : State}

/-! ### What a boot leaves behind -/

def lastSsh (t : List Entry) : Option Bool :=
  t.findSome? fun
    | .ssh enabled true => some enabled
    | _ => none

def lastClock (t : List Entry) : Option TimePreferences :=
  t.findSome? fun
    | .clock time true => some time
    | _ => none

def lastHostname (t : List Entry) : Option Bytes :=
  t.findSome? fun
    | .hostname name true => some name
    | _ => none

/-- The journal, the policies applied last, the paths that exist and the settings file. -/
structure Boot where
  journal : Option State
  network : Option Network
  ssh : Option Bool
  clock : Option TimePreferences
  hostname : Option Bytes
  tree : List Bytes
  settings : Option Bytes
  deriving DecidableEq

def shown (w : World) : Boot :=
  ⟨w.journal, lastApplied w.trace, lastSsh w.trace, lastClock w.trace, lastHostname w.trace,
    w.tree, w.settings⟩

namespace Boot

def erase (S : Site) (paths : List Bytes) (x : Boot) : Boot :=
  { x with
    tree := x.tree.filter fun q => paths.all fun p => !inside p q
    settings := if paths.any fun p => inside p S.profile.activeSettings then none else x.settings }

def policies (m : State) (x : Boot) : Boot :=
  { x with
    network := some m.network
    ssh := some m.configuration.system.sshEnabled
    clock := some m.configuration.time }

def saved (m : State) (x : Boot) : Boot := { x with journal := some m }

def named (P : Profile) (m : State) (x : Boot) : Boot :=
  match P.bootPreferences with
  | some b =>
    { x with
      journal := some (m.setHostname b.managedHostname), hostname := some b.managedHostname }
  | none => x

end Boot

/-- Whether the transaction is waiting for a settings file that cannot be read. -/
def blocked (S : Site) (s : State) (settings : Option Bytes) : Bool :=
  s.pending.transaction.state == .committing && (digest S settings).toOption.isNone

/-- The outcome that recoverNetwork gives an open transaction. -/
def commits (S : Site) (s : State) (settings : Option Bytes) : Bool :=
  s.pending.transaction.state == .committing &&
    (digest S settings).toOption == some s.pending.candidateHash

/-- What a bootstrap that returns makes of the device. -/
def outcome (S : Site) (x : Boot) : Boot :=
  let s := loaded S.profile x.journal
  if s.resetIntent then
    let m := (s.wipe S.profile.defaults).completeReset
    (((x.erase S S.profile.resetPaths).policies m).saved m).named S.profile m
  else if s.initialized then
    if s.isOpen then
      let m := s.settle (commits S s x.settings)
      ((x.saved m).policies m).named S.profile m
    else (x.policies s).named S.profile s
  else
    match S.profile.bootPreferences with
    | some b => (((x.policies (s.configure b.initial)).saved (s.configure b.initial)).named
        S.profile (s.configure b.initial))
    | none => { x with clock := some S.profile.defaults.time }

/-- Boot preferences are about to be adopted in a state that the next bootstrap would read
differently: it would settle the transaction, or fill in the port. -/
def drifts (S : Site) (x : Boot) : Bool :=
  let s := loaded S.profile x.journal
  match S.profile.bootPreferences with
  | some b =>
    !s.resetIntent && !s.initialized && !blocked S s x.settings &&
      (s.isOpen || (b.initial.time.ptpInterface.isEmpty &&
        !S.profile.defaults.time.ptpInterface.isEmpty))
  | none => false

/-- No bootstrap returns: the file that decides the transaction cannot be read. -/
def dead (S : Site) (x : Boot) : Bool :=
  let s := loaded S.profile x.journal
  !s.resetIntent && s.initialized && blocked S s x.settings

/-- The branch of bootstrap applies all three policies. -/
def applies (S : Site) (x : Boot) : Bool :=
  let s := loaded S.profile x.journal
  s.resetIntent || s.initialized || S.profile.bootPreferences.isSome

/-! ### The constructor on states that bootstrap writes -/

theorem migrate_of_time {P : Profile}
    (h : s.configuration.time.ptpInterface.isEmpty = true →
      P.defaults.time.ptpInterface.isEmpty = true) : migrate P s = s := by
  by_cases he : s.configuration.time.ptpInterface.isEmpty = true
  · have hs : s.configuration.time.ptpInterface = P.defaults.time.ptpInterface := by
      have hd := h he
      rw [List.isEmpty_iff] at he hd
      rw [he, hd]
    unfold migrate
    rw [if_pos he, ← hs]
  · unfold migrate
    rw [if_neg he]

theorem migrate_migrate (P : Profile) (s : State) : migrate P (migrate P s) = migrate P s := by
  apply migrate_of_time
  intro he
  unfold migrate at he
  split at he
  · exact he
  · rename_i hn
    exact absurd he hn

theorem migrate_setHostname (P : Profile) (s : State) (name : Bytes) :
    migrate P (s.setHostname name) = (migrate P s).setHostname name := by
  unfold migrate
  change (if s.configuration.time.ptpInterface.isEmpty = true then _ else _) = _
  split <;> rfl

theorem loaded_loads (P : Profile) (j : Option State) : migrate P (loaded P j) = loaded P j :=
  migrate_migrate P _

/-! ### Steps that keep the outcome -/

namespace Boot
variable {x : Boot}

/-- One erasing after another covers what both cover. -/
theorem erase_after {ps qs rs : List Bytes}
    (h : ∀ r, (ps.any fun p => inside p r) = ((qs.any fun q => inside q r) || rs.any fun q => inside q r)) :
    (x.erase S qs).erase S rs = x.erase S ps := by
  have hall : ∀ (l : List Bytes) r, (l.all fun p => !inside p r) = !l.any fun p => inside p r := by
    intro l r
    rw [List.not_any_eq_all_not]
  unfold erase
  congr 1
  · dsimp only
    rw [List.filter_filter]
    apply List.filter_congr
    intro r _
    rw [hall, hall, hall, h r]
    cases (qs.any fun q => inside q r) <;> cases (rs.any fun q => inside q r) <;> rfl
  · dsimp only
    rw [h S.profile.activeSettings]
    cases (qs.any fun q => inside q S.profile.activeSettings) <;>
      cases (rs.any fun q => inside q S.profile.activeSettings) <;> rfl

theorem erase_absorbs {ps : List Bytes} {p q : Bytes} (hp : p ∈ ps) (hq : inside p q = true) :
    (x.erase S [q]).erase S ps = x.erase S ps := by
  apply erase_after
  intro r
  cases hr : inside q r with
  | false => simp [hr]
  | true =>
    have hcover : (ps.any fun p => inside p r) = true := by
      rw [List.any_eq_true]
      exact ⟨p, hp, inside_trans hq hr⟩
    rw [hcover, Bool.or_true]

theorem erase_concat (ps : List Bytes) (p : Bytes) (x : Boot) :
    x.erase S (ps ++ [p]) = (x.erase S ps).erase S [p] := by
  symm
  apply erase_after
  intro r
  rw [List.any_append]

theorem erase_erase (ps : List Bytes) (x : Boot) : (x.erase S ps).erase S ps = x.erase S ps := by
  apply erase_after
  intro r
  rw [Bool.or_self]

end Boot

/-- The device is on its way to `T`, or no bootstrap will return on it any more. -/
def Fate (S : Site) (T x : Boot) : Prop :=
  (outcome S x = T ∧ drifts S x = false) ∨ dead S x = true

section Fate
variable {T x y : Boot}

/-- A step that only changes what the outcome does not read. -/
theorem Fate.of_outcome (h : Fate S T x) (hj : y.journal = x.journal) (hs : y.settings = x.settings)
    (ho : outcome S y = outcome S x) : Fate S T y := by
  unfold Fate drifts dead at *
  rw [hj, hs, ho]
  exact h

theorem fate_policy (ha : applies S x = true) (n : Option Network) (enabled : Option Bool)
    (h : Fate S T x) : Fate S T { x with network := n, ssh := enabled } := by
  refine h.of_outcome ?_ ?_ ?_
  · rfl
  · rfl
  · unfold applies at ha
    unfold outcome
    dsimp only at ha ⊢
    split
    · rfl
    · split
      · split
        · rfl
        · rfl
      · split
        · rfl
        · simp_all

theorem fate_clock (time : Option TimePreferences) (h : Fate S T x) :
    Fate S T { x with clock := time } := by
  refine h.of_outcome ?_ ?_ ?_
  · rfl
  · rfl
  · unfold outcome
    dsimp only
    split
    · rfl
    · split
      · split
        · rfl
        · rfl
      · split
        · rfl
        · rfl

theorem fate_hostname {b : BootPreferences} (hb : S.profile.bootPreferences = some b)
    (name : Option Bytes) (h : Fate S T x) : Fate S T { x with hostname := name } := by
  refine h.of_outcome ?_ ?_ ?_
  · rfl
  · rfl
  · unfold outcome Boot.named
    dsimp only
    rw [hb]
    split
    · rfl
    · split
      · split
        · rfl
        · rfl
      · rfl

/-- With a reset intent the settings file does not matter. -/
theorem fate_erase {p q : Bytes} (hi : (loaded S.profile x.journal).resetIntent = true)
    (hp : p ∈ S.profile.resetPaths) (hq : inside p q = true) (h : Fate S T x) :
    Fate S T (x.erase S [q]) := by
  rcases h with ⟨ho, _⟩ | hd
  · left
    refine ⟨?_, ?_⟩
    · rw [← ho]
      unfold outcome
      have hj : (x.erase S [q]).journal = x.journal := rfl
      dsimp only
      rw [hj, if_pos hi, if_pos hi, Boot.erase_absorbs hp hq]
    · unfold drifts
      have hj : (x.erase S [q]).journal = x.journal := rfl
      dsimp only
      rw [hj, hi]
      split
      · rfl
      · rfl
  · unfold dead at hd
    simp [hi] at hd

/-- The journal of a finished branch: bootstrap would change nothing but the hostname. -/
structure Plain (P : Profile) (m : State) : Prop where
  initialized : m.initialized = true
  intent : m.resetIntent = false
  closed : m.isOpen = false
  loads : migrate P m = m

theorem outcome_plain (hj : loaded S.profile x.journal = m) (hm : Plain S.profile m) :
    outcome S x = (x.policies m).named S.profile m := by
  unfold outcome
  dsimp only
  rw [hj, if_neg (by simp [hm.intent]), if_pos hm.initialized, if_neg (by simp [hm.closed])]

theorem fate_plain (hm : Plain S.profile m)
    (hT : ((x.saved m).policies m).named S.profile m = T) : Fate S T (x.saved m) := by
  have hj : loaded S.profile (x.saved m).journal = m := hm.loads
  refine .inl ⟨(outcome_plain hj hm).trans hT, ?_⟩
  unfold drifts
  dsimp only
  rw [hj, hm.initialized]
  split
  · simp
  · rfl

/-- The journal write of the reset branch, which it would make again. -/
theorem fate_reset (hj : loaded S.profile x.journal = s) (hi : s.resetIntent = true)
    (hm : m = (s.wipe S.profile.defaults).completeReset)
    (hy : y = (x.erase S S.profile.resetPaths).policies m) (h : Fate S T y) :
    Fate S T (y.saved m) := by
  have hyj : loaded S.profile y.journal = s := by
    rw [hy]
    exact hj
  have hplain : Plain S.profile m := by
    rw [hm]
    exact ⟨rfl, rfl, rfl, migrate_of_time fun h => h⟩
  have hyy : y.erase S S.profile.resetPaths = y := by
    rw [hy]
    change ((x.erase S S.profile.resetPaths).erase S S.profile.resetPaths).policies m = _
    rw [Boot.erase_erase]
  rcases h with ⟨ho, _⟩ | hd
  · apply fate_plain hplain
    rw [← ho]
    unfold outcome
    dsimp only
    rw [hyj, if_pos hi, hyy, ← hm]
    rfl
  · unfold dead at hd
    dsimp only at hd
    rw [hyj, hi] at hd
    simp at hd

/-- The journal write that settles the transaction. -/
theorem fate_settle {commit : Bool} (hj : loaded S.profile x.journal = s)
    (hi : s.resetIntent = false) (hn : s.initialized = true) (ho : s.isOpen = true)
    (hb : blocked S s x.settings = false) (hc : commit = commits S s x.settings)
    (h : Fate S T x) : Fate S T (x.saved (s.settle commit)) := by
  have hplain : Plain S.profile (s.settle commit) := by
    refine ⟨hn, hi, ?_, ?_⟩
    · cases commit <;> rfl
    · have hs : migrate S.profile s = s := by
        rw [← hj]
        exact loaded_loads _ _
      conv_rhs => rw [← hs]
      unfold migrate
      change (if s.configuration.time.ptpInterface.isEmpty = true then _ else _) = _
      split <;> rfl
  rcases h with ⟨hT, _⟩ | hd
  · apply fate_plain hplain
    rw [← hT]
    unfold outcome
    dsimp only
    rw [hj, if_neg (by simp [hi]), if_pos hn, if_pos ho, ← hc]
  · unfold dead at hd
    dsimp only at hd
    rw [hj, hb] at hd
    simp at hd

/-- The journal write that adopts the boot preferences; here the drift would show. -/
theorem fate_initial {b : BootPreferences} (hp : S.profile.bootPreferences = some b)
    (hj : loaded S.profile x.journal = s) (hi : s.resetIntent = false)
    (hn : s.initialized = false) (hy : y = x.policies (s.configure b.initial)) (h : Fate S T y) :
    Fate S T (y.saved (s.configure b.initial)) := by
  have hyj : loaded S.profile y.journal = s := by
    rw [hy]
    exact hj
  rcases h with ⟨hT, hdr⟩ | hd
  · unfold drifts at hdr
    dsimp only at hdr
    rw [hp, hyj, hi, hn] at hdr
    cases hb : blocked S s y.settings with
    | true =>
      right
      have hl : loaded S.profile (y.saved (s.configure b.initial)).journal =
        migrate S.profile (s.configure b.initial) := rfl
      unfold dead blocked
      dsimp only
      rw [hl, Backend.migrate_resetIntent, Backend.migrate_initialized, Backend.migrate_pending]
      change (!s.resetIntent && true && blocked S s y.settings) = true
      rw [hi, hb]
      rfl
    | false =>
      simp only [hb, Bool.not_false, Bool.true_and, Bool.or_eq_false_iff, Bool.and_eq_false_iff] at hdr
      have hplain : Plain S.profile (s.configure b.initial) := by
        refine ⟨rfl, hi, hdr.1, migrate_of_time ?_⟩
        intro he
        rcases hdr.2 with he' | hd
        · rw [show b.initial.time.ptpInterface.isEmpty = true from he] at he'
          simp at he'
        · simpa using hd
      apply fate_plain hplain
      rw [← hT]
      unfold outcome
      dsimp only
      rw [hyj, if_neg (by simp [hi]), if_neg (by simp [hn]), hp]
      rfl
  · unfold dead at hd
    dsimp only at hd
    rw [hyj, hn] at hd
    simp at hd

/-- The last journal write: the hostname does not matter to a bootstrap that sets it. -/
theorem fate_named {b : BootPreferences} (hb : S.profile.bootPreferences = some b)
    (hn : m.initialized = true) (hi : m.resetIntent = false)
    (hj : loaded S.profile x.journal = migrate S.profile m) (h : Fate S T x) :
    Fate S T (x.saved (m.setHostname b.managedHostname)) := by
  have hl : loaded S.profile (x.saved (m.setHostname b.managedHostname)).journal =
      (loaded S.profile x.journal).setHostname b.managedHostname := by
    rw [hj]
    exact migrate_setHostname _ _ _
  have hn' : (loaded S.profile x.journal).initialized = true := by rw [hj]; simpa using hn
  have hi' : (loaded S.profile x.journal).resetIntent = false := by rw [hj]; simpa using hi
  have ho : outcome S (x.saved (m.setHostname b.managedHostname)) = outcome S x := by
    unfold outcome
    dsimp only
    rw [hl, hi', hn']
    change (if (loaded S.profile x.journal).resetIntent = true then _ else
      if (loaded S.profile x.journal).initialized = true then
      if (loaded S.profile x.journal).isOpen = true then _ else _ else _) = _
    rw [hi', hn']
    unfold Boot.named
    rw [hb]
    simp only [Bool.false_eq_true, if_false, if_true]
    split
    · rfl
    · rfl
  unfold Fate drifts dead at *
  rw [hl, ho]
  exact h

end Fate

/-! ### Effects with no write of the settings authority -/

/-- Nothing but the process acts during a boot. -/
def quiet (cs : List Choice) : Bool := cs.all fun c => c.writes.isEmpty

/-- Whatever an effect does, the device stays on its way. -/
def Toward (S : Site) (T : Boot) (w w' : World) : Prop := Fate S T (shown w) → Fate S T (shown w')

section Effects
variable {T x : Boot} {α β : Type}

theorem Toward.refl (w : World) : Toward S T w w := fun h => h

theorem Toward.trans (a b c : World) (h : Toward S T a b) (h' : Toward S T b c) :
    Toward S T a c := fun hf => h' (h hf)

theorem draw_quiet (hq : quiet w.script = true) :
    w.draw.1.writes = [] ∧ ∃ cs, quiet cs = true ∧ w.draw.2 = { w with script := cs } := by
  unfold World.draw
  split
  · exact ⟨rfl, w.script, hq, rfl⟩
  · rename_i c cs hs
    rw [hs] at hq
    simp only [quiet, List.all_cons, Bool.and_eq_true, List.isEmpty_iff] at hq
    exact ⟨hq.1, cs, by simpa [quiet] using hq.2, rfl⟩

theorem effect_quiet {op : Choice → World → Outcome Error α × World} {a : α}
    (hq : quiet w.script = true) (h : effect op w = (.ret a, w')) :
    ∃ c cs, quiet cs = true ∧ op c { w with script := cs } = (.ret a, w') := by
  obtain ⟨hw, cs, hcs, hd⟩ := draw_quiet hq
  rw [effect_apply, hd, hw] at h
  split at h
  · simp at h
  · exact ⟨w.draw.1, cs, hcs, h⟩

/-- The process with memory `m` in front of the outside `x`. -/
structure At (m : State) (x : Boot) (w : World) : Prop where
  state : w.state = m
  quiet : quiet w.script = true
  shown : shown w = x

abbrev Tends (S : Site) (T : Boot) (p : Prog α) (w : World) (Q : α → World → Prop) : Prop :=
  Ensures (Toward S T) p w Q

theorem Tends.seq {p : Prog α} {f : α → Prog β} {P : α → World → Prop} {Q : β → World → Prop}
    (hm : Tends S T p w P) (hf : ∀ a w', P a w' → Tends S T (f a) w' Q) :
    Tends S T (p >>= f) w Q :=
  Ensures.bind Toward.trans hm hf

theorem Tends.get {g : World → α} {f : α → Prog β} {Q : β → World → Prop}
    (hf : Tends S T (f (g w)) w Q) : Tends S T (gets g >>= f) w Q := ⟨hf.within, hf.post⟩

theorem effect_tends {op : Choice → World → Outcome Error α × World} {Q : α → World → Prop}
    (h : At m x w)
    (hf : ∀ c w', At m x w' → Fate S T x → Fate S T (shown (op c w').2))
    (hr : ∀ c w' a w'', At m x w' → op c w' = (.ret a, w'') → Q a w'') :
    Tends S T (effect op) w Q := by
  refine ⟨?_, ?_⟩
  · intro hx
    obtain ⟨hw, cs, hcs, hd⟩ := draw_quiet h.quiet
    rw [effect_apply, hd, hw]
    split
    · exact hx
    · rw [h.shown] at hx
      exact hf _ { w with script := cs } ⟨h.state, hcs, h.shown⟩ hx
  · intro a w'' ha
    obtain ⟨c, cs, hcs, hop⟩ := effect_quiet h.quiet ha
    exact hr c { w with script := cs } a w'' ⟨h.state, hcs, h.shown⟩ hop

/-- Assignments to memory; the marks in the history are not visible outside. -/
theorem setState_tends {f : State → State} {mark : List Entry}
    (hs : ∀ w, shown { w with state := f w.state, trace := mark ++ w.trace } = shown w)
    (h : At m x w) : Tends S T (Backend.setState f mark) w fun _ w' => At (f m) x w' := by
  refine ⟨?_, ?_⟩
  · intro hf
    change Fate S T (shown { w with state := f w.state, trace := mark ++ w.trace })
    rw [hs]
    exact hf
  · intro u w' hw
    injection hw with _ hw
    rw [← hw]
    exact ⟨congrArg f h.state, h.quiet, (hs w).trans h.shown⟩

theorem event_tends (e : UserEvent) (h : At m x w) :
    Tends S T (Backend.event e) w fun _ w' => At m x w' := by
  refine ⟨fun hf => hf, ?_⟩
  intro u w' hw
  injection hw with _ hw
  rw [← hw]
  exact ⟨h.state, h.quiet, h.shown⟩

theorem call_tends {entry : Bool → Entry} {y : Boot} (h : At m x w)
    (hok : ∀ w, shown w = x → shown (w.log (entry true)) = y)
    (hno : ∀ w, shown (w.log (entry false)) = shown w) (hf : Fate S T x → Fate S T y) :
    Tends S T (platformCall entry) w fun _ w' => At m y w' := by
  apply effect_tends h
  · intro c w' h' hx
    split
    · rw [hno, h'.shown]
      exact hx
    · rw [hok w' h'.shown]
      exact hf hx
  · intro c w' u w'' h' hop
    split at hop
    · simp at hop
    · injection hop with _ hw
      rw [← hw]
      exact ⟨h'.state, h'.quiet, hok w' h'.shown⟩

theorem persist_tends (h : At m x w) (hf : Fate S T x → Fate S T (x.saved m)) :
    Tends S T Backend.persist w fun _ w' => At m (x.saved m) w' := by
  apply Tends.get
  apply Tends.seq (P := fun _ w' => w' = w) (Ensures.require Toward.refl fun _ => rfl)
  rintro _ _ rfl
  apply Ensures.attempt Toward.trans
  · apply effect_tends h
    · intro c w' h' hx
      have hx' : Fate S T (shown { w' with journal := some w'.state }) := by
        have := hf hx
        rw [← h'.shown, ← h'.state] at this
        exact this
      split
      · dsimp only
        cases c.leaves with
        | false =>
          rw [← h'.shown] at hx
          exact hx
        | true => exact hx'
      · exact hx'
    · intro c w' u w'' h' hop
      split at hop
      · simp at hop
      · injection hop with _ hw
        rw [← hw]
        refine ⟨h'.state, h'.quiet, ?_⟩
        rw [← h'.shown, ← h'.state]
        rfl
  · intro e w' _
    refine ⟨fun h => h, ?_⟩
    intro u w'' h
    simp at h

end Effects

/-! ### The steps of bootstrap -/

namespace Backend
variable {T x : Boot}

theorem network_tends (n : Network) (bootstrap : Bool) (h : At m x w) (ha : applies S x = true) :
    Tends S T (platformNetwork n bootstrap) w fun _ w' => At m { x with network := some n } w' := by
  apply call_tends h
  · rintro w rfl
    rfl
  · exact fun _ => rfl
  · exact fate_policy ha (some n) x.ssh

theorem ssh_tends (enabled : Bool) (h : At m x w) (ha : applies S x = true) :
    Tends S T (platformSshBootPolicy enabled) w fun _ w' => At m { x with ssh := some enabled } w' := by
  apply call_tends h
  · rintro w rfl
    rfl
  · exact fun _ => rfl
  · exact fate_policy ha x.network (some enabled)

theorem clock_tends (time : TimePreferences) (h : At m x w) :
    Tends S T (platformClockBootPolicy time) w fun _ w' => At m { x with clock := some time } w' := by
  apply call_tends h
  · rintro w rfl
    rfl
  · exact fun _ => rfl
  · exact fate_clock (some time)

theorem bootPolicy_tends (h : At m x w) (ha : applies S x = true) :
    Tends S T bootPolicy w fun _ w' => At m (x.policies m) w' := by
  apply Tends.get
  rw [h.state]
  apply Tends.seq (network_tends _ true h ha)
  intro _ w₁ h₁
  apply Tends.seq (ssh_tends _ h₁ ha)
  intro _ w₂ h₂
  exact clock_tends _ h₂

theorem shown_remove {p : Bytes} (hp : inside p S.journalPath = false) (w : World) :
    shown (World.remove S w p) = (shown w).erase S [p] := by
  unfold shown Boot.erase World.remove
  rw [hp]
  simp [lastApplied, lastSsh, lastClock, lastHostname]

section Erase
variable (hj : ∀ p ∈ S.profile.resetPaths, inside p S.journalPath = false)
include hj

/-- A removal that fails half way has removed paths below a reset path. -/
theorem fate_gone {p : Bytes} (hp : p ∈ S.profile.resetPaths) (gone : List Bytes)
    (hg : ∀ q ∈ gone, inside p q = true)
    (hi : (loaded S.profile w.journal).resetIntent = true) (h : Fate S T (shown w)) :
    Fate S T (shown (gone.foldl (World.remove S) w)) := by
  induction gone generalizing w with
  | nil => exact h
  | cons q qs ih =>
    have hpq : inside p q = true := hg q (List.mem_cons_self ..)
    have hqj : inside q S.journalPath = false := by
      by_contra hc
      have hpj := inside_trans hpq (by simpa using hc)
      rw [hj p hp] at hpj
      simp at hpj
    have hjr : (World.remove S w q).journal = w.journal := by
      unfold World.remove
      rw [hqj]
      rfl
    apply ih (fun r hr => hg r (List.mem_cons_of_mem _ hr))
    · rw [hjr]
      exact hi
    · rw [shown_remove hqj]
      exact fate_erase hi hp hpq h

theorem durableRemove_tends {p : Bytes} (hp : p ∈ S.profile.resetPaths) (h : At m x w)
    (hi : (loaded S.profile x.journal).resetIntent = true) :
    Tends S T (durableRemove S p) w fun _ w' => At m (x.erase S [p]) w' := by
  have hintent : ∀ w', At m x w' → (loaded S.profile w'.journal).resetIntent = true := by
    intro w' h'
    rw [← h'.shown] at hi
    exact hi
  apply effect_tends h
  · intro c w' h' hx
    split
    · apply fate_gone hj hp _ (fun q hm => (List.mem_filter.mp hm).2) (hintent w' h')
      rw [h'.shown]
      exact hx
    · rw [shown_remove (hj p hp), h'.shown]
      exact fate_erase hi hp (inside_refl p) hx
  · intro c w' u w'' h' hop
    split at hop
    · simp at hop
    · injection hop with _ hw
      rw [← hw]
      refine ⟨h'.state, h'.quiet, ?_⟩
      rw [shown_remove (hj p hp), h'.shown]

/-- The loop over the reset paths; the invariant is what the handled paths erased. -/
theorem removeAll_tends (h : At m x w) (hi : (loaded S.profile x.journal).resetIntent = true) :
    Tends S T (each (durableRemove S) S.profile.resetPaths) w fun _ w' =>
      At m (x.erase S S.profile.resetPaths) w' := by
  have hstart : At m (x.erase S []) w := by
    refine ⟨h.state, h.quiet, h.shown.trans ?_⟩
    unfold Boot.erase
    simp
  apply Ensures.each_mem Toward.refl Toward.trans (fun done w' => At m (x.erase S done) w') ?_ [] hstart
  intro done p w₁ hp h₁
  apply Ensures.mono (durableRemove_tends hj hp h₁ hi)
  intro _ w₂ h₂
  rw [Boot.erase_concat]
  exact h₂

theorem bootstrapErase_tends (h : At s x w) (hs : s = loaded S.profile x.journal)
    (hi : s.resetIntent = true) :
    Tends S T (bootstrapErase S) w fun _ w' =>
      At (s.wipe S.profile.defaults).completeReset
        (((x.erase S S.profile.resetPaths).policies (s.wipe S.profile.defaults).completeReset).saved
          (s.wipe S.profile.defaults).completeReset) w' := by
  have hi' : (loaded S.profile x.journal).resetIntent = true := by rw [← hs]; exact hi
  apply Tends.seq (removeAll_tends hj h hi')
  intro _ w₁ h₁
  apply Tends.seq (setState_tends (fun _ => rfl) h₁)
  intro _ w₂ h₂
  apply Tends.seq (bootPolicy_tends h₂ (by unfold applies; exact (by simp [Boot.erase, hi'])))
  intro _ w₃ h₃
  apply Tends.seq (setState_tends (fun _ => rfl) h₃)
  intro _ w₄ h₄
  apply Tends.seq (persist_tends h₄ ?_)
  · intro _ w₅ h₅
    apply Tends.get
    exact event_tends _ h₅
  · exact fate_reset hs.symm hi rfl rfl

theorem bootstrapReset_tends (h : At s x w) (hs : s = loaded S.profile x.journal)
    (hi : s.resetIntent = true) :
    Tends S T (bootstrapReset S) w fun _ w' =>
      At (s.wipe S.profile.defaults).completeReset
        (((x.erase S S.profile.resetPaths).policies (s.wipe S.profile.defaults).completeReset).saved
          (s.wipe S.profile.defaults).completeReset) w' := by
  have hstatus : ∀ path, Tends S T (storageStatus path) w fun _ w' => At s x w' := by
    intro path
    apply effect_tends h
    · intro c w' h' hx
      rw [← h'.shown] at hx
      split
      · exact hx
      · split
        · exact hx
        · exact hx
        · exact hx
    · intro c w' r w'' h' hop
      split at hop
      · simp at hop
      · split at hop
        · simp at hop
        · simp at hop
        · injection hop with _ hw
          rw [← hw]
          exact ⟨h'.state, h'.quiet, h'.shown⟩
  unfold bootstrapReset
  split
  · apply Tends.seq (hstatus _)
    rintro ⟨_, prepared⟩ w₁ h₁
    apply Tends.seq (P := fun _ w' => At s x w') (Ensures.require Toward.refl fun _ => h₁)
    intro _ w₂ h₂
    exact bootstrapErase_tends hj h₂ hs hi
  · exact bootstrapErase_tends hj h hs hi

end Erase

/-! ### The other branches -/

theorem fileHash_tends (h : At s x w) :
    Tends S T (fileHash S) w fun v w' => At s x w' ∧ digest S x.settings = .ok v := by
  have hset : ∀ w', At s x w' → w'.settings = x.settings := by
    intro w' h'
    rw [← h'.shown]
    rfl
  apply effect_tends h
  · intro c w' h' hx
    rw [← h'.shown] at hx
    split
    · exact hx
    · split
      · exact hx
      · exact hx
  · intro c w' v w'' h' hop
    split at hop
    · simp at hop
    · split at hop
      · simp at hop
      · rename_i hash hd
        injection hop with hv hw
        injection hv with hv
        rw [← hw, ← hv, ← hset w' h']
        exact ⟨⟨h'.state, h'.quiet, h'.shown⟩, hd⟩

/-- What recoverNetwork leaves of an open transaction. -/
def settledAt (S : Site) (s : State) (x : Boot) : Boot :=
  ({ x with network := some (s.next (commits S s x.settings)) }).saved
    (s.settle (commits S s x.settings))

section Initialized
variable (hs : s = loaded S.profile x.journal) (hi : s.resetIntent = false)
  (hn : s.initialized = true)
include hs hi hn

theorem settleNetwork_tends {commit : Bool} {reason : Reason} (h : At s x w) (ho : s.isOpen = true)
    (hb : blocked S s x.settings = false) (hc : commit = commits S s x.settings) :
    Tends S T (settleNetwork commit true reason) w fun _ w' =>
      At (s.settle (commits S s x.settings)) (settledAt S s x) w' := by
  have ha : applies S x = true := by
    unfold applies
    dsimp only
    rw [← hs, hn]
    simp
  apply Tends.get
  rw [h.state]
  apply Tends.seq (network_tends _ true h ha)
  intro _ w₁ h₁
  apply Tends.seq (setState_tends (fun _ => rfl) h₁)
  intro _ w₂ h₂
  apply Tends.seq (persist_tends h₂ (fate_settle hs.symm hi hn ho hb hc))
  intro _ w₃ h₃
  rw [hc] at h₃
  exact event_tends _ h₃

theorem recoverNetwork_tends (h : At s x w) (ho : s.isOpen = true) :
    Tends S T (recoverNetwork S true) w fun _ w' =>
      At (s.settle (commits S s x.settings)) (settledAt S s x) w' ∧
        blocked S s x.settings = false := by
  apply Tends.get
  rw [h.state, if_pos ho]
  dsimp only
  by_cases hc : (s.pending.transaction.state == .committing) = true
  · rw [if_pos hc]
    apply Tends.seq (P := fun commit w' => At s x w' ∧ blocked S s x.settings = false ∧
      commit = commits S s x.settings)
    · apply Tends.seq (fileHash_tends h)
      rintro v w₁ ⟨h₁, hd⟩
      refine Ensures.pure Toward.refl ⟨h₁, ?_, ?_⟩
      · unfold blocked
        rw [hd]
        simp [Except.toOption]
      · unfold commits
        rw [hd, hc]
        simp [Except.toOption]
    · rintro commit w₁ ⟨h₁, hb, hcm⟩
      apply Ensures.mono (settleNetwork_tends hs hi hn h₁ ho hb hcm)
      exact fun _ _ h₂ => ⟨h₂, hb⟩
  · rw [if_neg hc]
    have hc' : (s.pending.transaction.state == .committing) = false := by simpa using hc
    have hb : blocked S s x.settings = false := by
      unfold blocked
      rw [hc']
      rfl
    have hcm : false = commits S s x.settings := by
      unfold commits
      rw [hc']
      rfl
    apply Ensures.mono (settleNetwork_tends hs hi hn h ho hb hcm)
    exact fun _ _ h₂ => ⟨h₂, hb⟩

end Initialized

theorem bootstrapInitial_tends {b : BootPreferences} (hp : S.profile.bootPreferences = some b)
    (h : At s x w) (hs : s = loaded S.profile x.journal) (hi : s.resetIntent = false)
    (hn : s.initialized = false) :
    Tends S T (bootstrapInitial b) w fun _ w' =>
      At (s.configure b.initial)
        ((x.policies (s.configure b.initial)).saved (s.configure b.initial)) w' := by
  have ha : applies S x = true := by
    unfold applies
    simp [hp]
  apply Tends.seq (setState_tends (fun _ => rfl) h)
  intro _ w₁ h₁
  apply Tends.seq (bootPolicy_tends h₁ ha)
  intro _ w₂ h₂
  apply Tends.seq (setState_tends (fun _ => rfl) h₂)
  intro _ w₃ h₃
  exact persist_tends h₃ (fate_initial hp hs.symm hi hn rfl)

theorem bootstrapHostname_tends {b : BootPreferences} (hp : S.profile.bootPreferences = some b)
    (h : At m x w) (hn : m.initialized = true) (hi : m.resetIntent = false)
    (hj : loaded S.profile x.journal = migrate S.profile m) :
    Tends S T (bootstrapHostname b) w fun _ w' =>
      At (m.setHostname b.managedHostname) (x.named S.profile m) w' := by
  apply Tends.seq (setState_tends (fun _ => rfl) h)
  intro _ w₁ h₁
  apply Tends.seq (P := fun _ w' => At (m.setHostname b.managedHostname)
    { x with hostname := some b.managedHostname } w')
  · apply call_tends h₁
    · rintro w rfl
      rfl
    · exact fun _ => rfl
    · exact fate_hostname hp _
  · intro _ w₂ h₂
    apply Ensures.mono (persist_tends h₂ (fate_named hp hn hi hj))
    intro _ w₃ h₃
    unfold Boot.named
    rw [hp]
    exact h₃

theorem applies_of_initialized (hn : (loaded S.profile x.journal).initialized = true) :
    applies S x = true := by
  unfold applies
  simp [hn]

/-- What a bootstrap that returned leaves, and that it was able to return. -/
structure Ends (S : Site) (x : Boot) (w' : World) : Prop where
  quiet : quiet w'.script = true
  shown : shown w' = outcome S x
  live : dead S x = false

theorem bootstrap_tends (hj : ∀ p ∈ S.profile.resetPaths, inside p S.journalPath = false)
    (h : At s x w) (hs : s = loaded S.profile x.journal) :
    Tends S T (bootstrap S) w fun _ w' => Ends S x w' := by
  have last : ∀ w₁ m y, At m y w₁ → m.initialized = true → m.resetIntent = false →
      loaded S.profile y.journal = migrate S.profile m → outcome S x = y.named S.profile m →
      dead S x = false → Tends S T (match S.profile.bootPreferences with
        | some b => bootstrapHostname b
        | none => pure ()) w₁ fun _ w' => Ends S x w' := by
    intro w₁ m y h₁ hn hi hm ho hd
    cases hp : S.profile.bootPreferences with
    | some b =>
      apply Ensures.mono (bootstrapHostname_tends hp h₁ hn hi hm)
      exact fun _ _ h₂ => ⟨h₂.quiet, h₂.shown.trans ho.symm, hd⟩
    | none =>
      refine Ensures.pure Toward.refl ⟨h₁.quiet, ?_, hd⟩
      rw [h₁.shown, ho]
      unfold Boot.named
      rw [hp]
  have hload : migrate S.profile s = s := by
    rw [hs]
    exact loaded_loads _ _
  unfold outcome dead at last
  dsimp only at last
  rw [← hs] at last
  apply Tends.get
  rw [h.state]
  dsimp only
  by_cases hi : s.resetIntent = true
  · rw [if_pos hi]
    apply Tends.seq (bootstrapReset_tends hj h hs hi)
    intro _ w₁ h₁
    exact last w₁ _ _ h₁ rfl rfl rfl (by rw [if_pos hi]) (by rw [hi]; rfl)
  · rw [if_neg hi]
    have hi' : s.resetIntent = false := by simpa using hi
    by_cases hn : s.initialized = true
    · rw [if_pos hn]
      by_cases ho : s.isOpen = true
      · apply Tends.seq (recoverNetwork_tends hs hi' hn h ho)
        rintro _ w₁ ⟨h₁, hb⟩
        apply Tends.seq (bootPolicy_tends h₁ (applies_of_initialized ?_))
        · intro _ w₂ h₂
          exact last w₂ _ _ h₂ hn hi' rfl (by rw [if_neg hi, if_pos hn, if_pos ho]; rfl)
            (by rw [hb]; simp)
        · exact (migrate_initialized _ _).trans hn
      · have hb : blocked S s x.settings = false := by
          unfold blocked
          unfold State.isOpen TransactionState.isOpen at ho
          cases ht : s.pending.transaction.state <;> simp_all
        apply Tends.seq (P := fun _ w' => At s x w')
        · apply Tends.get
          rw [h.state, if_neg ho]
          exact Ensures.pure Toward.refl h
        · intro _ w₁ h₁
          apply Tends.seq (bootPolicy_tends h₁ (applies_of_initialized (by rw [← hs]; exact hn)))
          intro _ w₂ h₂
          exact last w₂ _ _ h₂ hn hi' (hs.symm.trans hload.symm)
            (by rw [if_neg hi, if_pos hn, if_neg ho]) (by rw [hb]; simp)
    · rw [if_neg hn]
      have hn' : s.initialized = false := by simpa using hn
      cases hp : S.profile.bootPreferences with
      | some b =>
        rw [hp] at last
        apply Tends.seq (bootstrapInitial_tends hp h hs hi' hn')
        intro _ w₁ h₁
        exact last w₁ _ _ h₁ rfl hi' rfl (by rw [if_neg hi, if_neg hn]) (by rw [hn']; simp)
      | none =>
        apply Tends.seq (clock_tends _ h)
        intro _ w₁ h₁
        refine Ensures.pure Toward.refl ⟨h₁.quiet, ?_, ?_⟩
        · rw [h₁.shown]
          unfold outcome
          dsimp only
          rw [← hs, if_neg hi, if_neg hn, hp]
        · unfold dead
          dsimp only
          rw [← hs, hn']
          simp

end Backend

/-! ### Attempts -/

/-- One attempt: a process is constructed from the journal and bootstrap is called on it. -/
def bootOnce (S : Site) (built script : List Choice) : Prog Backend.Reply := fun w =>
  (Backend.construct S >>= fun _ => perform S .bootstrap script)
    { w with alive := false, script := built }

/-- An attempt that a crash or a failing step cut off. -/
def CutOff (S : Site) (w w' : World) : Prop :=
  ∃ built script, quiet built = true ∧ quiet script = true ∧
    (∀ r, (bootOnce S built script w).1 ≠ .ret r) ∧ w' = (bootOnce S built script w).2

/-- After any number of attempts that were cut off, one that returns ends as one
uninterrupted bootstrap of the original device does. -/
def Replays (S : Site) (w : World) : Prop :=
  ∀ w₁ w₂ w₃ built₂ script₂ built₃ script₃ r₂ r₃, ReflTransGen (CutOff S) w w₁ →
    quiet built₂ = true → quiet script₂ = true → bootOnce S built₂ script₂ w₁ = (.ret r₂, w₂) →
    quiet built₃ = true → quiet script₃ = true → bootOnce S built₃ script₃ w = (.ret r₃, w₃) →
    shown w₂ = shown w₃

section Attempts
variable {T x : Boot} {built script : List Choice}
  (hj : ∀ p ∈ S.profile.resetPaths, inside p S.journalPath = false)
include hj

theorem guarded_tends (h : At s x w) (hs : s = loaded S.profile x.journal) :
    Tends S T (guarded S .bootstrap) w fun _ w' => Backend.Ends S x w' := by
  apply Tends.seq (P := fun _ w' => Backend.Ends S x w')
  · apply Tends.seq (Backend.bootstrap_tends hj h hs)
    intro _ w₁ h₁
    exact Ensures.pure Toward.refl h₁
  · intro _ w₁ h₁
    apply Tends.seq (P := fun _ w' => Backend.Ends S x w')
    · apply effect_tends (m := w₁.state) ⟨rfl, h₁.quiet, rfl⟩
      · intro c w' h' hx
        rw [h'.shown]
        exact hx
      · intro c w' u w'' h' hop
        injection hop with _ hw
        rw [← hw]
        exact ⟨h'.quiet, h'.shown.trans h₁.shown, h₁.live⟩
    · intro _ w₂ h₂
      exact Ensures.pure Toward.refl h₂

theorem perform_tends (hq : quiet script = true) (h : At s x w)
    (hs : s = loaded S.profile x.journal) :
    Tends S T (perform S .bootstrap script) w fun _ w' =>
      shown w' = outcome S x ∧ dead S x = false := by
  have hg := guarded_tends hj (T := T) (w := entered .bootstrap script w) ⟨h.state, hq, h.shown⟩ hs
  have hin : Toward S T w (entered .bootstrap script w) := fun hf => hf
  have hw := Toward.trans _ _ _ hin hg.within
  have hr := hg.post
  refine ⟨?_, ?_⟩
  · change Toward S T w (perform S .bootstrap script w).2
    unfold perform
    split
    · rename_i r w' ho
      rw [ho] at hw
      exact hw
    · rename_i e w' ho
      rw [ho] at hw
      exact hw
    · rename_i w' ho
      rw [ho] at hw
      exact hw
  · intro r w'' ho
    unfold perform at ho
    split at ho
    · rename_i r' w' hg'
      injection ho with _ hw''
      rw [← hw'']
      have he := hr r' w' hg'
      exact ⟨he.shown, he.live⟩
    · simp at ho
    · simp at ho

theorem bootOnce_tends (hb : quiet built = true) (hq : quiet script = true) (w : World) :
    Tends S T (bootOnce S built script) w fun _ w' =>
      shown w' = outcome S (shown w) ∧ dead S (shown w) = false := by
  have hstart : At w.state (shown w) { w with alive := false, script := built } := ⟨rfl, hb, rfl⟩
  have hboot : Tends S T (Backend.construct S >>= fun _ => perform S .bootstrap script)
      { w with alive := false, script := built } fun _ w' =>
        shown w' = outcome S (shown w) ∧ dead S (shown w) = false := by
    apply Tends.seq (P := fun _ w' => At (loaded S.profile (shown w).journal) (shown w) w')
    · apply effect_tends hstart
      · intro c w' h' hx
        rw [← h'.shown] at hx
        split
        · exact hx
        · exact hx
      · intro c w' u w'' h' hop
        split at hop
        · simp at hop
        · injection hop with _ hw
          rw [← hw, ← h'.shown]
          exact ⟨rfl, h'.quiet, rfl⟩
    · intro _ w₁ h₁
      exact perform_tends hj hq h₁ rfl
  exact ⟨hboot.within, hboot.post⟩

theorem fate_cutOff {w₁ : World} (h : ReflTransGen (CutOff S) w w₁) (hf : Fate S T (shown w)) :
    Fate S T (shown w₁) := by
  induction h with
  | refl => exact hf
  | tail _ hc ih =>
    obtain ⟨built, script, hb, hq, _, rfl⟩ := hc
    exact (bootOnce_tends hj hb hq _).within ih

theorem replays_of_steady (hd : drifts S (shown w) = false) : Replays S w := by
  intro w₁ w₂ w₃ built₂ script₂ built₃ script₃ r₂ r₃ hc hb₂ hq₂ h₂ hb₃ hq₃ h₃
  have hT : Fate S (outcome S (shown w)) (shown w) := .inl ⟨rfl, hd⟩
  have hF := fate_cutOff hj hc hT
  obtain ⟨hs₂, hl₂⟩ := (bootOnce_tends hj (T := shown w) hb₂ hq₂ w₁).post r₂ w₂ h₂
  obtain ⟨hs₃, _⟩ := (bootOnce_tends hj (T := shown w) hb₃ hq₃ w).post r₃ w₃ h₃
  rcases hF with ⟨ho, _⟩ | hdead
  · rw [hs₂, hs₃, ho]
  · rw [hl₂] at hdead
    simp at hdead

end Attempts

/-! ### An attempt with nothing in its way -/

/-- The environment does nothing more, and the journal can be written. -/
structure Smooth (w : World) : Prop where
  script : w.script = []
  failed : w.failed = false

namespace Backend

theorem platformCall_smooth (entry : Bool → Entry) (h : Smooth w) :
    Completes Smooth (platformCall entry) w := by
  unfold platformCall
  refine ⟨(), w.log (entry true), ?_, h.script, h.failed⟩
  rw [effect_nil _ h.script]
  rfl

theorem setState_smooth (f : State → State) (mark : List Entry) (h : Smooth w) :
    Completes Smooth (setState f mark) w := Completes.modify ⟨h.script, h.failed⟩

theorem event_smooth (e : UserEvent) (h : Smooth w) : Completes Smooth (event e) w :=
  Completes.modify ⟨h.script, h.failed⟩

theorem persist_smooth (h : Smooth w) : Completes Smooth persist w := by
  apply Completes.gets
  apply Completes.seq (Completes.require (by rw [h.failed]; rfl) h)
  intro _ w₁ h₁
  apply Completes.attempt
  unfold writeJournal
  refine ⟨(), _, effect_nil _ h₁.script, h₁.script, h₁.failed⟩

theorem bootPolicy_smooth (h : Smooth w) : Completes Smooth bootPolicy w := by
  apply Completes.gets
  apply Completes.seq (platformCall_smooth _ h)
  intro _ w₁ h₁
  apply Completes.seq (platformCall_smooth _ h₁)
  intro _ w₂ h₂
  exact platformCall_smooth _ h₂

theorem settleNetwork_smooth (commit bootstrap : Bool) (reason : Reason) (h : Smooth w) :
    Completes Smooth (settleNetwork commit bootstrap reason) w := by
  apply Completes.gets
  apply Completes.seq (platformCall_smooth _ h)
  intro _ w₁ h₁
  apply Completes.seq (setState_smooth _ _ h₁)
  intro _ w₂ h₂
  apply Completes.seq (persist_smooth h₂)
  intro _ w₃ h₃
  exact event_smooth _ h₃

theorem recoverNetwork_smooth (bootstrap : Bool) (h : Smooth w)
    (hb : blocked S w.state w.settings = false) :
    Completes Smooth (recoverNetwork S bootstrap) w := by
  apply Completes.gets
  split
  · dsimp only
    split
    · rename_i hc
      apply Completes.seq
      · unfold blocked at hb
        rw [hc] at hb
        cases hd : digest S w.settings with
        | error e =>
          rw [hd] at hb
          simp [Except.toOption] at hb
        | ok v =>
          refine ⟨v == w.state.pending.candidateHash, w.log (.hash v), ?_, h.script, h.failed⟩
          have hh : fileHash S w = (.ret v, w.log (.hash v)) := by
            unfold fileHash
            rw [effect_nil _ h.script]
            simp only [hd]
            rfl
          exact bind_of_ret hh
      · intro commit w₁ h₁
        exact settleNetwork_smooth _ _ _ h₁
    · exact settleNetwork_smooth _ _ _ h
  · exact Completes.pure _ h

theorem bootstrapInitial_smooth (b : BootPreferences) (h : Smooth w) :
    Completes Smooth (bootstrapInitial b) w := by
  apply Completes.seq (setState_smooth _ _ h)
  intro _ w₁ h₁
  apply Completes.seq (bootPolicy_smooth h₁)
  intro _ w₂ h₂
  apply Completes.seq (setState_smooth _ _ h₂)
  intro _ w₃ h₃
  exact persist_smooth h₃

theorem bootstrapHostname_smooth (b : BootPreferences) (h : Smooth w) :
    Completes Smooth (bootstrapHostname b) w := by
  apply Completes.seq (setState_smooth _ _ h)
  intro _ w₁ h₁
  apply Completes.seq (platformCall_smooth _ h₁)
  intro _ w₂ h₂
  exact persist_smooth h₂

theorem bootstrap_smooth {b : BootPreferences} (hp : S.profile.bootPreferences = some b)
    (h : Smooth w) (hi : w.state.resetIntent = false)
    (hb : blocked S w.state w.settings = false) : Completes Smooth (bootstrap S) w := by
  apply Completes.gets
  dsimp only
  rw [if_neg (by simp [hi]), hp]
  split
  · apply Completes.seq (recoverNetwork_smooth true h hb)
    intro _ w₁ h₁
    apply Completes.seq (bootPolicy_smooth h₁)
    intro _ w₂ h₂
    exact bootstrapHostname_smooth b h₂
  · apply Completes.seq (bootstrapInitial_smooth b h)
    intro _ w₁ h₁
    exact bootstrapHostname_smooth b h₁

end Backend

/-- The process that the constructor makes of the journal. -/
def built (S : Site) (w : World) : World :=
  { w with
    alive := true, state := loaded S.profile w.journal, failed := false, jobDeadline := 0
    nextObservation := 0, carriers := [], trace := .constructed :: w.trace, script := [] }

theorem bootOnce_built (S : Site) (script : List Choice) (w : World) :
    bootOnce S [] script w = perform S .bootstrap script (built S w) := by
  apply bind_of_ret
  unfold Backend.construct
  rw [effect_nil _ rfl]
  rfl

theorem bootOnce_smooth {b : BootPreferences} (hp : S.profile.bootPreferences = some b)
    (hi : (loaded S.profile w.journal).resetIntent = false)
    (hb : blocked S (loaded S.profile w.journal) w.settings = false) :
    ∃ r w', bootOnce S [] [] w = (.ret r, w') := by
  have hg : Completes Smooth (guarded S .bootstrap) (entered .bootstrap [] (built S w)) := by
    apply Completes.seq
    · apply Completes.seq (Backend.bootstrap_smooth hp ⟨rfl, rfl⟩ hi hb)
      intro _ w₁ h₁
      exact Completes.pure _ h₁
    · intro r w₁ h₁
      apply Completes.seq (C := Smooth)
      · exact ⟨(), w₁, effect_nil _ h₁.script, h₁⟩
      · intro _ w₂ h₂
        exact Completes.pure r h₂
  obtain ⟨r, w', hr, _⟩ := hg
  refine ⟨r, w'.log (.returned .bootstrap), ?_⟩
  rw [bootOnce_built]
  unfold perform
  rw [hr]

/-! ### The attempt that shows the drift -/

/-- An effect to which the environment answers without interference. -/
theorem effect_idle {α : Type} (op : Choice → World → Outcome Error α × World) {cs : List Choice}
    (hs : w.script = {} :: cs) : effect op w = op {} { w with script := cs } := by
  have hd : w.draw = ({}, { w with script := cs }) := by
    unfold World.draw
    rw [hs]
  rw [effect_apply, hd]
  rfl

theorem platformCall_idle (entry : Bool → Entry) {cs : List Choice} (hs : w.script = {} :: cs) :
    platformCall entry w = (.ret (), ({ w with script := cs }).log (entry true)) := by
  unfold platformCall
  rw [effect_idle _ hs]
  rfl

theorem bootPolicy_idle {cs : List Choice} (hs : w.script = {} :: {} :: {} :: cs) :
    ∃ w', Backend.bootPolicy w = (.ret (), w') ∧ w'.script = cs ∧ w'.failed = w.failed := by
  unfold Backend.bootPolicy
  rw [gets_bind]
  unfold platformNetwork platformSshBootPolicy platformClockBootPolicy
  rw [bind_of_ret (platformCall_idle _ hs), bind_of_ret (platformCall_idle _ rfl),
    platformCall_idle _ rfl]
  exact ⟨_, rfl, rfl, rfl⟩

theorem persist_idle {cs : List Choice} (hf : w.failed = false) (hs : w.script = {} :: cs) :
    ∃ w', Backend.persist w = (.ret (), w') ∧ w'.script = cs := by
  unfold Backend.persist
  rw [gets_bind, bind_of_ret (require_of_true (by rw [hf]; rfl))]
  unfold attempt writeJournal
  rw [effect_idle _ hs]
  exact ⟨_, rfl, rfl⟩

theorem bootstrapInitial_idle (b : BootPreferences) {cs : List Choice} (hf : w.failed = false)
    (hs : w.script = {} :: {} :: {} :: {} :: cs) :
    ∃ w', Backend.bootstrapInitial b w = (.ret (), w') ∧ w'.script = cs := by
  obtain ⟨w₁, h₁, hs₁, hf₁⟩ :=
    bootPolicy_idle (w := { w with state := { w.state with configuration := b.initial } }) hs
  obtain ⟨w₂, h₂, hs₂⟩ :=
    persist_idle (w := { w₁ with state := { w₁.state with initialized := true } }) (hf₁.trans hf) hs₁
  exact ⟨w₂, (bind_of_ret rfl).trans ((bind_of_ret h₁).trans ((bind_of_ret rfl).trans h₂)), hs₂⟩

/-- Cut off between the two journal writes. -/
def betweenWrites : List Choice := [{}, {}, {}, {}, { crash := true }]

theorem bootOnce_between {b : BootPreferences} (hp : S.profile.bootPreferences = some b)
    (hi : (loaded S.profile w.journal).resetIntent = false)
    (hn : (loaded S.profile w.journal).initialized = false) :
    ∃ w₁, bootOnce S [] betweenWrites w = (.crash, w₁) ∧
      shown w₁ = ((shown w).policies ((loaded S.profile w.journal).configure b.initial)).saved
        ((loaded S.profile w.journal).configure b.initial) := by
  have hscript : (entered .bootstrap betweenWrites (built S w)).script =
      {} :: {} :: {} :: {} :: [{ crash := true }] := rfl
  obtain ⟨w₁, h₁, hs₁⟩ := bootstrapInitial_idle b rfl hscript
  have hat := (Backend.bootstrapInitial_tends (T := shown w) hp
    (w := entered .bootstrap betweenWrites (built S w)) ⟨rfl, rfl, rfl⟩ rfl hi hn).post _ _ h₁
  obtain ⟨w₂, h₂, hw₂⟩ : ∃ w₂, Backend.bootstrapHostname b w₁ = (.crash, w₂) ∧ shown w₂ = shown w₁ := by
    refine ⟨{ w₁ with state := w₁.state.setHostname b.managedHostname, script := [], alive := false }, ?_, rfl⟩
    refine (bind_of_ret rfl).trans (bind_of_crash ?_)
    unfold platformBootHostname platformCall
    rw [effect_apply]
    unfold World.draw
    simp only [hs₁]
    rfl
  have hboot : Backend.bootstrap S (entered .bootstrap betweenWrites (built S w)) = (.crash, w₂) := by
    unfold Backend.bootstrap
    rw [gets_bind]
    have hi' : (entered .bootstrap betweenWrites (built S w)).state.resetIntent = false := hi
    have hn' : (entered .bootstrap betweenWrites (built S w)).state.initialized = false := hn
    rw [if_neg (by simp [hi']), if_neg (by simp [hn']), hp]
    exact (bind_of_ret h₁).trans h₂
  have hg : guarded S .bootstrap (entered .bootstrap betweenWrites (built S w)) = (.crash, w₂) :=
    bind_of_crash (bind_of_crash hboot)
  refine ⟨{ w₂ with alive := false, trace := .cut :: w₂.trace }, ?_, hw₂.trans hat.shown⟩
  rw [bootOnce_built]
  unfold perform
  rw [hg]

theorem outcome_drifts {b : BootPreferences} {x : Boot} (hp : S.profile.bootPreferences = some b)
    (hs : s = loaded S.profile x.journal) (hi : s.resetIntent = false) (hn : s.initialized = false)
    (hd : s.isOpen = true ∨ (b.initial.time.ptpInterface.isEmpty = true ∧
      S.profile.defaults.time.ptpInterface.isEmpty = false)) :
    outcome S ((x.policies (s.configure b.initial)).saved (s.configure b.initial)) ≠ outcome S x := by
  intro h
  have hj := congrArg Boot.journal h
  have hx : (outcome S x).journal = some ((s.configure b.initial).setHostname b.managedHostname) := by
    unfold outcome Boot.named
    dsimp only
    rw [← hs, if_neg (by simp [hi]), if_neg (by simp [hn]), hp]
  rw [hx] at hj
  -- The second bootstrap finds an initialized state and recovers it.
  have hl : loaded S.profile ((x.policies (s.configure b.initial)).saved
      (s.configure b.initial)).journal = migrate S.profile (s.configure b.initial) := rfl
  have hopen : (migrate S.profile (s.configure b.initial)).isOpen = s.isOpen := by
    unfold State.isOpen
    rw [Backend.migrate_pending]
    rfl
  have hinit : (migrate S.profile (s.configure b.initial)).initialized = true := by
    rw [Backend.migrate_initialized]
    rfl
  have hintent : ¬(migrate S.profile (s.configure b.initial)).resetIntent = true := by
    rw [Backend.migrate_resetIntent]
    change ¬s.resetIntent = true
    simp [hi]
  unfold outcome Boot.named at hj
  dsimp only at hj
  rw [hl, if_neg hintent, if_pos hinit, hopen, hp] at hj
  by_cases ho : s.isOpen = true
  · rw [if_pos ho] at hj
    injection hj with hj
    have hclosed := congrArg State.isOpen hj
    change (if _ then TransactionState.committed else TransactionState.rolledBack).isOpen = s.isOpen at hclosed
    rw [ho] at hclosed
    split at hclosed <;> simp [TransactionState.isOpen] at hclosed
  · rw [if_neg ho] at hj
    obtain ⟨hempty, hdefault⟩ := hd.resolve_left ho
    injection hj with hj
    have hport : (migrate S.profile (s.configure b.initial)).configuration.time.ptpInterface =
        b.initial.time.ptpInterface := congrArg (fun d => d.configuration.time.ptpInterface) hj
    unfold migrate at hport
    rw [if_pos (show (s.configure b.initial).configuration.time.ptpInterface.isEmpty = true from hempty)] at hport
    change S.profile.defaults.time.ptpInterface = _ at hport
    rw [hport, hempty] at hdefault
    simp at hdefault

theorem drift_shows (hj : ∀ p ∈ S.profile.resetPaths, inside p S.journalPath = false)
    (hdr : drifts S (shown w) = true) : ¬Replays S w := by
  intro h
  unfold drifts at hdr
  cases hp : S.profile.bootPreferences with
  | none =>
    rw [hp] at hdr
    simp at hdr
  | some b =>
    rw [hp] at hdr
    simp only [Bool.and_eq_true, Bool.not_eq_true', Bool.or_eq_true] at hdr
    obtain ⟨⟨⟨hi, hn⟩, hb⟩, hcase⟩ := hdr
    have hw : (shown w).journal = w.journal := rfl
    rw [hw] at hi hn hb hcase
    obtain ⟨w₁, hcut, hs₁⟩ := bootOnce_between hp hi hn
    have hj₁ : w₁.journal = some ((loaded S.profile w.journal).configure b.initial) :=
      congrArg Boot.journal hs₁
    have hset₁ : w₁.settings = w.settings := congrArg Boot.settings hs₁
    obtain ⟨r₂, w₂, h₂⟩ := bootOnce_smooth (w := w₁) hp
      (by rw [hj₁]; exact (Backend.migrate_resetIntent _ _).trans hi)
      (by
        rw [hj₁, hset₁]
        unfold blocked loaded
        rw [Option.getD_some, Backend.migrate_pending]
        exact hb)
    obtain ⟨r₃, w₃, h₃⟩ := bootOnce_smooth (w := w) hp hi hb
    have hcutoff : CutOff S w w₁ := by
      refine ⟨[], betweenWrites, rfl, rfl, ?_, ?_⟩
      · intro r
        rw [hcut]
        simp
      · rw [hcut]
    have heq := h w₁ w₂ w₃ [] [] [] [] r₂ r₃ (ReflTransGen.single hcutoff) rfl rfl h₂ rfl rfl h₃
    have hq : quiet [] = true := rfl
    have ho₂ := ((bootOnce_tends hj (T := shown w) hq hq w₁).post _ _ h₂).1
    have ho₃ := ((bootOnce_tends hj (T := shown w) hq hq w).post _ _ h₃).1
    rw [ho₂, ho₃, hs₁] at heq
    exact outcome_drifts (x := shown w) (s := loaded S.profile w.journal) hp rfl hi hn hcase heq

/-- Bootstrap replays, whatever cut the earlier attempts off, exactly when it is not about to
adopt boot preferences over an open transaction or with a port left to the constructor. -/
theorem bootstrap_replays (S : Site) (w : World)
    (hj : ∀ p ∈ S.profile.resetPaths, inside p S.journalPath = false) :
    Replays S w ↔ drifts S (shown w) = false := by
  refine ⟨?_, replays_of_steady hj⟩
  intro h
  by_contra hd
  exact drift_shows hj (by simpa using hd) h

/-- A device that has accepted a reset of the tests' product. -/
def Fixture.resetting : List Event :=
  Fixture.started ++ [.call (.resetDevice true (ascii "web") []) [{ id := Fixture.id }], .crash]

theorem bootstrap_replays_resetting :
    Replays Fixture.site (run Fixture.site (fresh (some Fixture.previous) [] .missing) Fixture.resetting) :=
  (bootstrap_replays Fixture.site
    (run Fixture.site (fresh (some Fixture.previous) [] .missing) Fixture.resetting)
    (by decide)).mpr (by decide)

/-! ### A product whose factory port is lan7 and whose initial port is empty -/

namespace Fixture

def factory : Configuration :=
  { system := { network := dhcp }, time := { ptpInterface := ascii "lan7" } }

/-- The site of the tests with boot preferences; the two configurations differ in the port. -/
def preferred : Site :=
  { site with profile := { site.profile with
      interfaces := [ascii "end0"], defaults := factory
      bootPreferences := some
        { managedHostname := config.system.hostname, factory := factory, initial := config } } }

/-- A journal written before the device is initialized: a power request without a start. -/
def requested : List Event :=
  [.restart [], .call (.power .reboot (ascii "web") []) [{ id := id }], .crash]

end Fixture

/-- Cut off between its two journal writes, the first boot of such a device, and a boot with a
journal that was written before any start, end with another port than one in a single piece. -/
theorem bootstrap_drifts :
    Validation.validate Fixture.factory = .ok () ∧ Validation.validate Fixture.config = .ok () ∧
    (∀ p ∈ Fixture.preferred.profile.resetPaths, inside p Fixture.preferred.journalPath = false) ∧
    ¬Replays Fixture.preferred (fresh (some Fixture.previous) [] .missing) ∧
    ¬Replays Fixture.preferred
      (run Fixture.preferred (fresh (some Fixture.previous) [] .missing) Fixture.requested) := by
  have hj : ∀ p ∈ Fixture.preferred.profile.resetPaths,
      inside p Fixture.preferred.journalPath = false := by decide
  refine ⟨by decide, by decide, hj, ?_, ?_⟩
  · exact drift_shows hj (by decide)
  · exact drift_shows hj (by decide)

end Monutchee.System
