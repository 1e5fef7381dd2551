import Monutchee.System.Audit

/-!
# Link events (storage.cpp:189-209, 462-468)

A Backend keeps the carrier that each managed interface showed in the last observation, and a
tick whose time has come compares it with the carriers of a new one. The map is erased, compared
and updated in one pass and outlives the observations that raise; what comes out is a comparison
of each observation with the one before it.
-/

namespace Monutchee.System
open Lib Lib.Act Validation Backend

variable {S : Site} {w w' : World}

/-! ### Two observations -/

/-- A managed interface that the observation before shows with the other carrier. -/
def changed (managed : List Bytes) (before : List NetworkStatus) (link : NetworkStatus) : Bool :=
  managed.contains link.interface &&
    before.any fun p => p.interface == link.interface && p.carrier != link.carrier

/-- The changes of a sequence of observations, each against the one before it. -/
def linkChanges (managed : List Bytes) : List NetworkStatus → List (List NetworkStatus) → List NetworkStatus
  | _, [] => []
  | before, links :: rest => links.filter (changed managed before) ++ linkChanges managed links rest

def Distinct (links : List NetworkStatus) : Prop := (links.map NetworkStatus.interface).Nodup

/-! ### One pass over the links -/

/-- What one round of the loop makes of the carriers, and what it emits. -/
def note (managed : List Bytes) (carriers : List (Bytes × Bool)) (link : NetworkStatus) :
    List (Bytes × Bool) :=
  if managed.contains link.interface then
    (link.interface, link.carrier) :: carriers.filter (·.1 != link.interface)
  else carriers

def differs (managed : List Bytes) (carriers : List (Bytes × Bool)) (link : NetworkStatus) : Bool :=
  managed.contains link.interface && (carriers.lookup link.interface).any (· != link.carrier)

def alarms (managed : List Bytes) : List (Bytes × Bool) → List NetworkStatus → List NetworkStatus
  | _, [] => []
  | carriers, link :: links =>
    (if differs managed carriers link then [link] else []) ++
      alarms managed (note managed carriers link) links

theorem observeLink_eq (link : NetworkStatus) (w : World) :
    observeLink S link w = (.ret (), { w with
      events := w.events ++
        (if differs S.profile.interfaces w.carriers link then [link] else []).map linkEvent
      carriers := note S.profile.interfaces w.carriers link }) := by
  unfold observeLink differs note
  by_cases hm : S.profile.interfaces.contains link.interface = true
  · simp only [hm, if_true, Bool.true_and]
    rw [gets_bind]
    cases hl : w.carriers.lookup link.interface with
    | none => simp
    | some previous =>
      by_cases hp : (previous != link.carrier) = true
      · simp [hp, event]
      · simp [hp]
  · rw [if_neg hm, Bool.eq_false_iff.mpr hm]
    simp

theorem observeLinks_eq (links : List NetworkStatus) (w : World) :
    each (observeLink S) links w = (.ret (), { w with
      events := w.events ++ (alarms S.profile.interfaces w.carriers links).map linkEvent
      carriers := links.foldl (note S.profile.interfaces) w.carriers }) := by
  induction links generalizing w with
  | nil =>
    rw [alarms, List.map_nil, List.append_nil]
    rfl
  | cons link links ih =>
    refine (bind_of_ret (observeLink_eq link w)).trans ?_
    rw [ih]
    simp [alarms]

theorem lookup_filter_ne {carriers : List (Bytes × Bool)} {i j : Bytes} (h : i ≠ j) :
    (carriers.filter (·.1 != j)).lookup i = carriers.lookup i := by
  induction carriers with
  | nil => rfl
  | cons x xs ih =>
    by_cases hx : x.1 = j
    · have hi : (i == x.1) = false := by simpa [hx] using h
      rw [List.filter_cons_of_neg (by simp [hx]), ih, List.lookup_cons, hi]
    · rw [List.filter_cons_of_pos (by simp [hx]), List.lookup_cons, List.lookup_cons, ih]

theorem lookup_note (managed : List Bytes) (carriers : List (Bytes × Bool)) (link : NetworkStatus)
    (i : Bytes) : (note managed carriers link).lookup i =
      if managed.contains link.interface = true ∧ i = link.interface then some link.carrier
      else carriers.lookup i := by
  unfold note
  by_cases hm : managed.contains link.interface = true
  · by_cases hi : i = link.interface
    · rw [if_pos hm, if_pos ⟨hm, hi⟩, List.lookup_cons, hi, beq_self_eq_true]
    · rw [if_pos hm, if_neg fun h => hi h.2, List.lookup_cons, beq_false_of_ne hi]
      exact lookup_filter_ne hi
  · rw [if_neg hm, if_neg fun h => hm h.1]

/-- No round changes what another interface is compared with. -/
theorem differs_note {managed : List Bytes} {carriers : List (Bytes × Bool)} {link other : NetworkStatus}
    (h : other.interface ≠ link.interface) :
    differs managed (note managed carriers link) other = differs managed carriers other := by
  unfold differs
  rw [lookup_note, if_neg fun he => h he.2]

theorem alarms_eq {managed : List Bytes} {carriers : List (Bytes × Bool)} {links : List NetworkStatus}
    (h : Distinct links) : alarms managed carriers links = links.filter (differs managed carriers) := by
  induction links generalizing carriers with
  | nil => rfl
  | cons link links ih =>
    unfold Distinct at h
    rw [List.map_cons, List.nodup_cons] at h
    have hrest : links.filter (differs managed (note managed carriers link)) =
        links.filter (differs managed carriers) := by
      apply List.filter_congr
      intro other hm
      apply differs_note
      intro he
      exact h.1 (he ▸ List.mem_map_of_mem hm)
    rw [alarms, ih h.2, hrest, List.filter_cons]
    split
    · rfl
    · rfl

/-- The carrier that an observation shows of an interface. -/
def shownCarrier (links : List NetworkStatus) (i : Bytes) : Option Bool :=
  (links.find? (·.interface == i)).map NetworkStatus.carrier

theorem lookup_notes {managed : List Bytes} {carriers : List (Bytes × Bool)}
    {links : List NetworkStatus} (h : Distinct links) (i : Bytes) :
    (links.foldl (note managed) carriers).lookup i =
      if managed.contains i then (shownCarrier links i).or (carriers.lookup i) else carriers.lookup i := by
  induction links generalizing carriers with
  | nil => simp [shownCarrier]
  | cons link links ih =>
    unfold Distinct at h
    rw [List.map_cons, List.nodup_cons] at h
    rw [List.foldl_cons, ih h.2, lookup_note]
    by_cases hi : link.interface = i
    · subst hi
      have hnone : links.find? (·.interface == link.interface) = none := by
        rw [List.find?_eq_none]
        intro other hm he
        exact h.1 (beq_iff_eq.mp he ▸ List.mem_map_of_mem hm)
      simp [shownCarrier, hnone]
    · have hne : ¬ (managed.contains link.interface = true ∧ i = link.interface) := by
        rintro ⟨-, he⟩
        exact hi he.symm
      rw [if_neg hne, shownCarrier, shownCarrier, List.find?_cons_of_neg (by simpa using hi)]

theorem lookup_erase (carriers : List (Bytes × Bool)) (links : List NetworkStatus) (i : Bytes) :
    (carriers.filter fun previous => links.any (·.interface == previous.1)).lookup i =
      if links.any (·.interface == i) then carriers.lookup i else none := by
  induction carriers with
  | nil => simp
  | cons x xs ih =>
    rw [List.filter_cons, List.lookup_cons]
    by_cases hi : i = x.1
    · subst hi
      split
      · rw [List.lookup_cons, beq_self_eq_true]
      · rename_i hx
        rw [ih, if_neg hx]
    · split
      · rw [List.lookup_cons, beq_false_of_ne hi, ih]
      · rw [ih, beq_false_of_ne hi]

/-- The carriers of a Backend whose last observation was `before`. -/
def Baseline (managed : List Bytes) (before : List NetworkStatus) (carriers : List (Bytes × Bool)) : Prop :=
  ∀ i, carriers.lookup i = if managed.contains i then shownCarrier before i else none

theorem shown_any {links : List NetworkStatus} (h : Distinct links) (i : Bytes) (p : Bool → Bool) :
    (shownCarrier links i).any p = links.any fun l => l.interface == i && p l.carrier := by
  induction links with
  | nil => rfl
  | cons link links ih =>
    unfold Distinct at h
    rw [List.map_cons, List.nodup_cons] at h
    rw [shownCarrier, List.any_cons]
    by_cases hi : link.interface = i
    · have hrest : (links.any fun l => l.interface == i && p l.carrier) = false := by
        rw [List.any_eq_false]
        intro other hm hp
        rw [Bool.and_eq_true, beq_iff_eq] at hp
        exact h.1 (hi ▸ hp.1 ▸ List.mem_map_of_mem hm)
      rw [List.find?_cons_of_pos (by simpa using hi), hrest]
      simp [hi]
    · have hbeq : (link.interface == i) = false := beq_false_of_ne hi
      rw [List.find?_cons_of_neg (by simpa using hi), hbeq, Bool.false_and, Bool.false_or, ← ih h.2]
      rfl

theorem differs_baseline {managed : List Bytes} {before : List NetworkStatus}
    {carriers : List (Bytes × Bool)} (hb : Baseline managed before carriers) (h : Distinct before)
    (link : NetworkStatus) : differs managed carriers link = changed managed before link := by
  unfold differs changed
  rw [hb]
  by_cases hm : managed.contains link.interface = true
  · rw [if_pos hm, shown_any h]
  · rw [Bool.eq_false_iff.mpr hm]
    rfl

/-- The pass over the links, after the erasure. -/
theorem pass_spec {managed : List Bytes} {before links : List NetworkStatus}
    {carriers : List (Bytes × Bool)} (hb : Baseline managed before carriers) (hbefore : Distinct before)
    (hlinks : Distinct links) :
    let kept := carriers.filter fun previous => links.any (·.interface == previous.1)
    alarms managed kept links = links.filter (changed managed before) ∧
      Baseline managed links (links.foldl (note managed) kept) := by
  intro kept
  have hfind : ∀ i, links.any (·.interface == i) = false → shownCarrier links i = none := by
    intro i hi
    rw [shownCarrier, Option.map_eq_none_iff, List.find?_eq_none]
    simpa using hi
  constructor
  · rw [alarms_eq hlinks]
    apply List.filter_congr
    intro link hlink
    rw [← differs_baseline hb hbefore]
    unfold differs
    have hany : links.any (·.interface == link.interface) = true :=
      List.any_eq_true.mpr ⟨link, hlink, by simp⟩
    rw [lookup_erase, if_pos hany]
  · intro i
    rw [lookup_notes hlinks, lookup_erase, hb i]
    by_cases hm : managed.contains i = true
    · rw [if_pos hm, if_pos hm, if_pos hm]
      by_cases hi : links.any (·.interface == i) = true
      · obtain ⟨link, hlink, he⟩ := List.any_eq_true.mp hi
        have hsome : (shownCarrier links i).isSome = true := by
          rw [shownCarrier, Option.isSome_map, List.find?_isSome]
          exact ⟨link, hlink, he⟩
        obtain ⟨b, hb'⟩ := Option.isSome_iff_exists.mp hsome
        rw [hb']
        rfl
      · rw [if_neg hi, Option.or_none]
    · rw [if_neg hm, if_neg hm, if_neg hm, ite_self]

/-! ### A tick -/

/-- The events that tell of a link. -/
def UserEvent.link (e : UserEvent) : Bool :=
  e.code == ascii "network_recovered" || e.code == ascii "network_down"

namespace World

def linkEvents (w : World) : List UserEvent := w.events.filter UserEvent.link

/-- The answer of the environment to the n-th effect from here on. -/
def choice (w : World) (n : ℕ) : Choice := w.script.getD n {}

end World

theorem linkEvent_link (link : NetworkStatus) : (linkEvent link).link = true := by
  unfold UserEvent.link linkEvent
  cases link.carrier with
  | true => simp
  | false => simp

theorem jobEvent_link {s : State} {priority : Priority} {code message outcome : Bytes}
    (h : code ≠ ascii "network_recovered" ∧ code ≠ ascii "network_down") :
    (jobEvent s priority code message outcome).link = false := by
  show (code == ascii "network_recovered" || code == ascii "network_down") = false
  rw [beq_false_of_ne h.1, beq_false_of_ne h.2]
  rfl

theorem settleEvent_link (s : State) (commit : Bool) (reason : Reason) :
    (settleEvent s commit reason).link = false := by
  have hcodes : ∀ code ∈ [ascii "network_configuration_committed", ascii "network_configuration_cancelled",
      ascii "network_configuration_timed_out", ascii "network_configuration_rolled_back"],
      (code == ascii "network_recovered" || code == ascii "network_down") = false := by decide
  apply hcodes (settleEvent s commit reason).code
  unfold settleEvent
  cases commit with
  | true => simp
  | false => cases reason <;> simp

/-- Nothing that the observer reads or emits changed. -/
structure Silent (w w' : World) : Prop where
  carriers : w'.carriers = w.carriers
  observation : w'.nextObservation = w.nextObservation
  events : w'.linkEvents = w.linkEvents

theorem Silent.refl (w : World) : Silent w w := ⟨rfl, rfl, rfl⟩

theorem Silent.trans (a b c : World) (h : Silent a b) (h' : Silent b c) : Silent a c :=
  ⟨h'.carriers.trans h.carriers, h'.observation.trans h.observation, h'.events.trans h.events⟩

theorem silent_lenient : Lenient Silent where
  refl := Silent.refl
  trans := Silent.trans
  draw _ _ := ⟨rfl, rfl, rfl⟩
  stop _ := ⟨rfl, rfl, rfl⟩
  write _ _ := ⟨rfl, rfl, rfl⟩
  log _ _ _ := ⟨rfl, rfl, rfl⟩

theorem event_silent {e : UserEvent} (h : e.link = false) (w : World) : Within Silent (event e) w := by
  refine ⟨rfl, rfl, ?_⟩
  show (w.events ++ [e]).filter UserEvent.link = _
  rw [List.filter_append, List.filter_cons_of_neg (by simp [h]), List.filter_nil, List.append_nil]
  rfl

namespace Backend

theorem persist_silent (w : World) : Within Silent persist w := by
  unfold persist
  apply Within.bind Silent.trans (Within.gets Silent.refl _ w)
  intro failed w₁ _
  apply Within.bind Silent.trans (Within.require Silent.refl _ _ w₁)
  intro _ w₂ _
  apply Within.attempt Silent.trans
  · apply silent_lenient.effect
    intro c w
    split
    · exact ⟨rfl, rfl, rfl⟩
    · exact ⟨rfl, rfl, rfl⟩
  · intro e w₃ _
    exact ⟨rfl, rfl, rfl⟩

theorem settleNetwork_silent (commit bootstrap : Bool) (reason : Reason) (w : World) :
    Within Silent (settleNetwork commit bootstrap reason) w := by
  unfold settleNetwork
  apply Within.bind Silent.trans (Within.gets Silent.refl _ w)
  intro s w₁ _
  apply Within.bind Silent.trans (silent_lenient.platformCall _ (fun _ _ => ⟨rfl, rfl, rfl⟩) w₁)
  intro _ w₂ _
  apply Within.bind Silent.trans (show Within Silent (setState _ _) w₂ from ⟨rfl, rfl, rfl⟩)
  intro _ w₃ _
  apply Within.bind Silent.trans (persist_silent w₃)
  intro _ w₄ _
  exact event_silent (settleEvent_link _ commit reason) w₄

theorem recoverNetwork_silent (bootstrap : Bool) (w : World) :
    Within Silent (recoverNetwork S bootstrap) w := by
  unfold Within
  rw [recoverNetwork_apply]
  split
  · split
    · apply Within.bind Silent.trans (silent_lenient.fileHash w)
      intro hash w₁ _
      exact settleNetwork_silent _ bootstrap _ w₁
    · exact settleNetwork_silent false bootstrap _ w
  · exact Silent.refl w

theorem tickExpire_silent (w : World) : Within Silent (tickExpire S) w := by
  unfold tickExpire
  apply Within.bind Silent.trans (Within.gets Silent.refl _ w)
  intro s w₁ _
  split
  · apply Within.bind Silent.trans (silent_lenient.readClock w₁)
    intro t w₂ _
    split
    · exact recoverNetwork_silent false w₂
    · exact Silent.refl w₂
  · exact Silent.refl w₁

theorem dispatchPower_silent (w : World) : Within Silent dispatchPower w := by
  have hdispatched : ascii "system_operation_dispatched" ≠ ascii "network_recovered" ∧
      ascii "system_operation_dispatched" ≠ ascii "network_down" := by decide
  have hfailed : ascii "system_operation_failed" ≠ ascii "network_recovered" ∧
      ascii "system_operation_failed" ≠ ascii "network_down" := by decide
  unfold dispatchPower
  apply Within.bind Silent.trans (Within.gets Silent.refl _ w)
  intro s w₁ _
  apply Within.attempt Silent.trans
  · apply Within.bind Silent.trans
    · apply silent_lenient.effect
      intro c w
      dsimp only
      split
      · exact ⟨rfl, rfl, rfl⟩
      · exact ⟨rfl, rfl, rfl⟩
    · intro _ w₂ _
      exact event_silent (jobEvent_link hdispatched) w₂
  · intro e w₂ _
    apply Within.bind Silent.trans (show Within Silent (setState _ _) w₂ from ⟨rfl, rfl, rfl⟩)
    intro _ w₃ _
    apply Within.bind Silent.trans (persist_silent w₃)
    intro _ w₄ _
    apply Within.bind Silent.trans (event_silent (jobEvent_link hfailed) w₄)
    intro _ w₅ _
    exact Silent.refl w₅

theorem tickDispatch_silent (w : World) : Within Silent tickDispatch w := by
  unfold tickDispatch
  apply Within.bind Silent.trans (Within.gets Silent.refl _ w)
  intro deadline w₁ _
  split
  · apply Within.bind Silent.trans (silent_lenient.readClock w₁)
    intro t w₂ _
    split
    · unfold dispatch
      apply Within.bind Silent.trans (show Within Silent (modify _) w₂ from ⟨rfl, rfl, rfl⟩)
      intro _ w₃ _
      apply Within.bind Silent.trans (show Within Silent (setState _ _) w₃ from ⟨rfl, rfl, rfl⟩)
      intro _ w₄ _
      exact Within.bind Silent.trans (persist_silent w₄) fun _ w₅ _ => dispatchPower_silent w₅
    · exact Silent.refl w₂
  · exact Silent.refl w₁

end Backend

/-! ### What a tick asks -/

/-- An observation that a tick tries to take: the two clock readings and what the platform said. -/
structure Poll where
  checked : ℕ
  set : ℕ
  answer : Option (List NetworkStatus)
  deriving DecidableEq, Repr

/-- The poll of a tick that begins in `w`, read off what the environment has in store. -/
def World.poll (w : World) : Option Poll :=
  if w.failed || (w.choice 0).crash || (w.choice 1).crash then none
  else if (w.choice 0).time % 2^64 < w.nextObservation then none
  else some {
    checked := (w.choice 0).time % 2^64
    set := (w.choice 1).time % 2^64
    answer := if (w.choice 2).crash || (w.choice 2).fails then none else some (w.choice 2).links }

/-- What is left of the carriers when an observation begins. -/
def kept (carriers : List (Bytes × Bool)) (links : List NetworkStatus) : List (Bytes × Bool) :=
  carriers.filter fun previous => links.any (·.interface == previous.1)

/-- The carriers after an answer, and the links whose change it tells; without one nothing changes. -/
def swept (managed : List Bytes) (carriers : List (Bytes × Bool)) :
    Option (List NetworkStatus) → List (Bytes × Bool)
  | none => carriers
  | some links => links.foldl (note managed) (kept carriers links)

def told (managed : List Bytes) (carriers : List (Bytes × Bool)) :
    Option (List NetworkStatus) → List NetworkStatus
  | none => []
  | some links => alarms managed (kept carriers links) links

/-- The observer's part of the world after a poll: one pass over its answer, if it had one. -/
structure Polled (S : Site) (q : Option Poll) (w w' : World) : Prop where
  observation : w'.nextObservation = (q.map fun q => add64 q.set 1000).getD w.nextObservation
  carriers : w'.carriers = swept S.profile.interfaces w.carriers (q.bind Poll.answer)
  events : w'.linkEvents =
    w.linkEvents ++ (told S.profile.interfaces w.carriers (q.bind Poll.answer)).map linkEvent

theorem Silent.polled (h : Silent w w') : Polled S none w w' where
  observation := h.observation
  carriers := h.carriers
  events := by
    rw [h.events]
    exact (List.append_nil _).symm

theorem Polled.silent {q : Option Poll} {w'' : World} (h : Polled S q w w') (hs : Silent w' w'') :
    Polled S q w w'' where
  observation := hs.observation.trans h.observation
  carriers := hs.carriers.trans h.carriers
  events := hs.events.trans h.events

theorem draw_choice (w : World) :
    w.draw.1 = w.choice 0 ∧ ∀ n, w.draw.2.choice n = w.choice (n + 1) := by
  unfold World.draw World.choice
  cases hs : w.script with
  | nil => exact ⟨rfl, fun n => by simp [hs]⟩
  | cons c cs => exact ⟨rfl, fun _ => rfl⟩

theorem choice_assign (w : World) (t n : ℕ) : ({ w with nextObservation := t } : World).choice n = w.choice n := rfl

theorem linkEvents_assign (w : World) (t : ℕ) : ({ w with nextObservation := t } : World).linkEvents = w.linkEvents :=
  rfl

theorem authority_choice (vs : List Bytes) (w : World) (n : ℕ) :
    (w.authority vs).choice n = w.choice n := by
  unfold World.choice
  rw [(authority_rest vs w).2.2]

theorem readClock_crash (h : (w.choice 0).crash = true) :
    ∃ w', readClock w = (.crash, w') ∧ Silent w w' := by
  have hs := silent_lenient.readClock w
  unfold readClock Within at *
  rw [effect_apply, (draw_choice w).1, if_pos h] at hs ⊢
  exact ⟨_, rfl, hs⟩

theorem readClock_next (h : (w.choice 0).crash = false) :
    ∃ w', readClock w = (.ret ((w.choice 0).time % 2^64), w') ∧ Silent w w' ∧
      ∀ n, w'.choice n = w.choice (n + 1) := by
  have hs := silent_lenient.readClock w
  unfold readClock Within at *
  rw [effect_apply, (draw_choice w).1, h, if_neg Bool.false_ne_true] at hs ⊢
  refine ⟨_, rfl, hs, ?_⟩
  intro n
  rw [authority_choice]
  exact (draw_choice w).2 n

theorem networkLinks_silent (w : World) : Within Silent platformNetworkLinks w := by
  apply silent_lenient.effect
  intro c w
  split
  · exact Silent.refl w
  · exact Silent.refl w

/-- The platform's answer, if it gave one. -/
theorem networkLinks_answer (w : World) :
    (platformNetworkLinks w).1 =
      if (w.choice 0).crash then .crash
      else if (w.choice 0).fails then .raise (w.choice 0).error else .ret (w.choice 0).links := by
  unfold platformNetworkLinks
  rw [effect_apply, (draw_choice w).1]
  split
  · rfl
  · split
    · rfl
    · rfl

namespace Backend

/-- What the platform answered to the poll. -/
theorem observeNetwork_polls (w : World) :
    let answer := if (w.choice 0).crash || (w.choice 0).fails then none else some (w.choice 0).links
    let w' := (observeNetwork S w).2
    w'.nextObservation = w.nextObservation ∧
      w'.carriers = swept S.profile.interfaces w.carriers answer ∧
      w'.linkEvents = w.linkEvents ++ (told S.profile.interfaces w.carriers answer).map linkEvent := by
  have hs := networkLinks_silent w
  have ho := networkLinks_answer w
  unfold Within at hs
  rcases hn : platformNetworkLinks w with ⟨o, w₁⟩
  rw [hn] at hs ho
  unfold observeNetwork Act.attempt
  rw [bind_apply, hn]
  cases hc : (w.choice 0).crash with
  | true =>
    rw [hc, if_pos rfl] at ho
    simp only at ho
    subst ho
    exact ⟨hs.observation, hs.carriers, hs.events.trans (List.append_nil _).symm⟩
  | false =>
    cases hf : (w.choice 0).fails with
    | true =>
      rw [hc, hf, if_neg Bool.false_ne_true, if_pos rfl] at ho
      simp only at ho
      subst ho
      exact ⟨hs.observation, hs.carriers, hs.events.trans (List.append_nil _).symm⟩
    | false =>
      rw [hc, hf, if_neg Bool.false_ne_true, if_neg Bool.false_ne_true] at ho
      simp only at ho
      subst ho
      have hlinks : ∀ ls : List NetworkStatus,
          (ls.map linkEvent).filter UserEvent.link = ls.map linkEvent := by
        intro ls
        rw [List.filter_eq_self]
        intro e he
        obtain ⟨l, _, rfl⟩ := List.mem_map.mp he
        exact linkEvent_link l
      dsimp only
      rw [modify_bind, observeLinks_eq]
      dsimp only [World.linkEvents]
      rw [hs.carriers, List.filter_append, hlinks]
      exact ⟨hs.observation, rfl, congrArg (· ++ _) hs.events⟩

theorem tickObserve_polls (hw : w.failed = false) : Polled S w.poll w (tickObserve S w).2 := by
  unfold tickObserve World.poll
  rw [hw, Bool.false_or]
  cases h₀ : (w.choice 0).crash with
  | true =>
    obtain ⟨w₁, hr, hs⟩ := readClock_crash h₀
    rw [bind_of_crash hr]
    exact hs.polled
  | false =>
    obtain ⟨w₁, hr, hs, hnext⟩ := readClock_next h₀
    rw [bind_of_ret hr, gets_bind, hs.observation, Bool.false_or]
    generalize (w.choice 0).time % 2^64 = checked
    by_cases hlate : w.nextObservation ≤ checked
    · rw [if_pos hlate, if_neg (Nat.not_lt.mpr hlate)]
      cases h₁ : (w.choice 1).crash with
      | true =>
        obtain ⟨w₂, hr₂, hs₂⟩ := readClock_crash ((congrArg Choice.crash (hnext 0)).trans h₁)
        rw [bind_of_crash hr₂]
        exact (Silent.trans _ _ _ hs hs₂).polled
      | false =>
        obtain ⟨w₂, hr₂, hs₂, hnext₂⟩ := readClock_next ((congrArg Choice.crash (hnext 0)).trans h₁)
        have hchoice : w₂.choice 0 = w.choice 2 := (hnext₂ 0).trans (hnext 1)
        have hboth := Silent.trans _ _ _ hs hs₂
        rw [bind_of_ret hr₂, modify_bind, hnext 0]
        generalize (w.choice (0 + 1)).time % 2^64 = set
        obtain ⟨v, hv⟩ : ∃ v : World, v = { w₂ with nextObservation := add64 set 1000 } := ⟨_, rfl⟩
        have hlook : v.choice 0 = w.choice 2 := by rw [hv, choice_assign, hchoice]
        have hcarriers : v.carriers = w.carriers := by rw [hv, hboth.carriers]
        have hevents : v.linkEvents = w.linkEvents := by rw [hv, linkEvents_assign, hboth.events]
        have htime : v.nextObservation = add64 set 1000 := by rw [hv]
        rw [← hv]
        obtain ⟨ho, hc, he⟩ := observeNetwork_polls (S := S) v
        rw [hlook, hcarriers] at hc he
        rw [hevents] at he
        exact ⟨ho.trans htime, hc, he⟩
    · rw [if_neg hlate, if_pos (Nat.lt_of_not_le hlate), ite_self]
      exact hs.polled

end Backend

namespace Backend

theorem tick_polls (w : World) : Polled S w.poll w (tick S w).2 := by
  unfold tick
  rw [gets_bind]
  cases hf : w.failed with
  | true =>
    have hpoll : w.poll = none := by
      unfold World.poll
      rw [hf]
      rfl
    rw [hpoll]
    exact (Silent.refl w).polled
  | false =>
    have hreq : (require (!false) recoveryError : Prog Unit) w = (.ret (), w) := rfl
    rw [bind_of_ret hreq]
    have ho := tickObserve_polls (S := S) hf
    rw [bind_apply]
    rcases hm : tickObserve S w with ⟨o, w₁⟩
    rw [hm] at ho
    cases o with
    | ret u =>
      apply ho.silent
      exact Within.bind Silent.trans (tickExpire_silent w₁) fun _ w₂ _ => tickDispatch_silent w₂
    | raise e => exact ho
    | crash => exact ho

end Backend

/-! ### Runs of ticks -/

/-- A tick, or what happens outside the manager. -/
def Event.watches : Event → Bool
  | .call .tick _ | .crash | .write _ | .status _ => true
  | .restart _ | .call _ _ => false

def Event.poll (w : World) : Event → Option Poll
  | .call .tick script => if w.alive then { w with script := script : World }.poll else none
  | _ => none

/-- The polls of a run, in order. -/
def polls (S : Site) : World → List Event → List Poll
  | _, [] => []
  | w, e :: es => (e.poll w).toList ++ polls S (step S w e) es

/-- The observations taken: what the platform answered, where it did. -/
def observations (S : Site) (w : World) (es : List Event) : List (List NetworkStatus) :=
  (polls S w es).filterMap Poll.answer

theorem perform_polls (script : List Choice) (w : World) :
    Polled S ({ w with script := script : World }.poll) w (perform S .tick script w).2 := by
  have hpoll : (entered .tick script w).poll = { w with script := script : World }.poll := rfl
  have htick := tick_polls (S := S) (entered .tick script w)
  have hentered : Polled S ({ w with script := script : World }.poll) w
      (tick S (entered .tick script w)).2 := by
    rw [← hpoll]
    exact ⟨htick.observation, htick.carriers, htick.events⟩
  have hguarded : Polled S ({ w with script := script : World }.poll) w
      (guarded S .tick (entered .tick script w)).2 := by
    have hcheck : ∀ v, Within Silent checkpoint v := fun v =>
      silent_lenient.effect (fun _ u => Silent.refl u) v
    have hcall : Backend.call S .tick = (tick S >>= fun _ => pure Reply.done) := rfl
    unfold guarded
    rw [hcall, bind_assoc, bind_apply]
    rcases hm : tick S (entered .tick script w) with ⟨o, w₁⟩
    rw [hm] at hentered
    cases o with
    | ret u =>
      apply hentered.silent
      apply Within.bind Silent.trans (show Within Silent (pure Reply.done : Prog Reply) w₁ from Silent.refl w₁)
      intro r w₂ _
      exact Within.bind Silent.trans (hcheck w₂) fun _ w₃ _ => Silent.refl w₃
    | raise e => exact hentered
    | crash => exact hentered
  unfold perform
  rcases hm : guarded S .tick (entered .tick script w) with ⟨o, w₁⟩
  rw [hm] at hguarded
  cases o with
  | ret r => exact hguarded.silent ⟨rfl, rfl, rfl⟩
  | raise e => exact hguarded.silent ⟨rfl, rfl, rfl⟩
  | crash => exact hguarded.silent ⟨rfl, rfl, rfl⟩

/-- What one event does to the observer. -/
theorem step_polls {e : Event} (h : e.watches = true) (w : World) :
    Polled S (e.poll w) w (step S w e) := by
  cases e with
  | restart script => cases h
  | call op script =>
    cases op with
    | tick =>
      show Polled S (if w.alive then { w with script := script : World }.poll else none) w
        (if w.alive then (perform S .tick script w).2 else w)
      by_cases ha : w.alive = true
      · rw [if_pos ha, if_pos ha]
        exact perform_polls script w
      · rw [if_neg ha, if_neg ha]
        exact (Silent.refl w).polled
    | _ => cases h
  | crash => exact Silent.polled ⟨rfl, rfl, rfl⟩
  | write content => exact Silent.polled ⟨rfl, rfl, rfl⟩
  | status file => exact Silent.polled ⟨rfl, rfl, rfl⟩

/-- From an observation on, the link events are the changes between one observation and the
next. -/
theorem run_linkEvents {before : List NetworkStatus} {es : List Event}
    (hes : ∀ e ∈ es, e.watches = true) (hb : Baseline S.profile.interfaces before w.carriers)
    (hbefore : Distinct before) (hd : ∀ links ∈ observations S w es, Distinct links) :
    (run S w es).linkEvents =
      w.linkEvents ++ (linkChanges S.profile.interfaces before (observations S w es)).map linkEvent := by
  induction es generalizing w before with
  | nil => simp [run, observations, polls, linkChanges]
  | cons e es ih =>
    have hp := step_polls (S := S) (hes e (List.mem_cons_self ..)) w
    have hrest : ∀ x ∈ es, x.watches = true := fun x hx => hes x (List.mem_cons_of_mem _ hx)
    have hobs : observations S w (e :: es) =
        ((e.poll w).bind Poll.answer).toList ++ observations S (step S w e) es := by
      unfold observations
      rw [polls, List.filterMap_append]
      cases e.poll w with
      | none => rfl
      | some q => cases hq : q.answer <;> simp [hq]
    rw [hobs] at hd ⊢
    have hrun : run S w (e :: es) = run S (step S w e) es := rfl
    have hcarriers := hp.carriers
    have hevents := hp.events
    rw [hrun]
    cases ha : (e.poll w).bind Poll.answer with
    | none =>
      rw [ha] at hd hcarriers hevents
      have hb' : Baseline S.profile.interfaces before (step S w e).carriers := by
        rw [hcarriers]
        exact hb
      rw [ih hrest hb' hbefore hd, hevents]
      simp [told]
    | some links =>
      rw [ha] at hd hcarriers hevents
      have hlinks : Distinct links := hd links (by simp)
      obtain ⟨halarms, hpass⟩ := pass_spec hb hbefore hlinks
      have hb' : Baseline S.profile.interfaces links (step S w e).carriers := by
        rw [hcarriers]
        exact hpass
      have htold : told S.profile.interfaces w.carriers (some links) =
          links.filter (changed S.profile.interfaces before) := halarms
      have hd' : ∀ l ∈ observations S (step S w e) es, Distinct l := fun l hl =>
        hd l (List.mem_append_right _ hl)
      rw [ih hrest hb' hlinks hd', hevents, htold]
      simp [linkChanges]

theorem poll_due {e : Event} {q : Poll} (h : e.poll w = some q) : w.nextObservation ≤ q.checked := by
  have hpoll : ∀ v : World, v.poll = some q → v.nextObservation ≤ q.checked := by
    intro v hv
    unfold World.poll at hv
    split at hv
    · cases hv
    · split at hv
      · cases hv
      · rename_i hlate
        injection hv with hv
        rw [← hv]
        exact Nat.le_of_not_lt hlate
  cases e with
  | call op script =>
    cases op with
    | tick =>
      have hcall : (if w.alive then { w with script := script : World }.poll else none) = some q := h
      split at hcall
      · exact hpoll { w with script := script } hcall
      · cases hcall
    | _ => cases h
  | _ => cases h

/-- A poll is due a second after the last, as long as that second fits the clock. -/
theorem polls_spaced {es : List Event} (hes : ∀ e ∈ es, e.watches = true)
    (hq : ∀ q ∈ polls S w es, q.checked ≤ q.set ∧ q.set + 1000 < 2^64) :
    (∀ q ∈ polls S w es, w.nextObservation ≤ q.checked) ∧
      (polls S w es).Pairwise fun a b => a.set + 1000 ≤ b.checked := by
  induction es generalizing w with
  | nil => simp [polls]
  | cons e es ih =>
    have hp := step_polls (S := S) (hes e (List.mem_cons_self ..)) w
    have hrest : ∀ x ∈ es, x.watches = true := fun x hx => hes x (List.mem_cons_of_mem _ hx)
    have hnext := hp.observation
    rw [polls] at hq ⊢
    cases hpoll : e.poll w with
    | none =>
      rw [hpoll] at hq hnext
      obtain ⟨hdue, hspaced⟩ := ih (w := step S w e) hrest hq
      refine ⟨?_, hspaced⟩
      intro q hm
      have hle := hdue q hm
      rw [hnext] at hle
      exact hle
    | some q₀ =>
      rw [hpoll] at hq hnext
      obtain ⟨hdue, hspaced⟩ := ih (w := step S w e) hrest fun q hm => hq q (List.mem_append_right _ hm)
      obtain ⟨hle, hfits⟩ := hq q₀ (by simp)
      have hnow := poll_due hpoll
      have hset : (step S w e).nextObservation = q₀.set + 1000 := by
        rw [hnext]
        exact add64_of_lt hfits
      have hlater : ∀ q ∈ polls S (step S w e) es, q₀.set + 1000 ≤ q.checked := by
        intro q hm
        rw [← hset]
        exact hdue q hm
      refine ⟨?_, ?_⟩
      · intro q hm
        rcases List.mem_cons.mp hm with rfl | hm
        · exact hnow
        · have := hlater q hm
          omega
      · exact List.pairwise_cons.mpr ⟨hlater, hspaced⟩

/-- The link events of a Backend that has not observed before: for each observation one event for
each managed interface that it and the observation before it show with different carriers, and no
other. Observations are a second apart until the clock nears its end. -/
theorem link_events {es : List Event} (hes : ∀ e ∈ es, e.watches = true) (hw : w.carriers = [])
    (hd : ∀ links ∈ observations S w es, Distinct links) :
    (run S w es).linkEvents =
        w.linkEvents ++ (linkChanges S.profile.interfaces [] (observations S w es)).map linkEvent ∧
      ((∀ q ∈ polls S w es, q.checked ≤ q.set ∧ q.set + 1000 < 2^64) →
        (polls S w es).Pairwise fun a b => a.set + 1000 ≤ b.checked) := by
  have hb : Baseline S.profile.interfaces [] w.carriers := by
    intro i
    rw [hw]
    simp [shownCarrier]
  exact ⟨run_linkEvents hes hb List.nodup_nil hd, fun hq => (polls_spaced hes hq).2⟩

namespace Fixture

def tickAt (t : ℕ) (links : List NetworkStatus) : Event :=
  .call .tick [{ time := t }, { time := t }, { links := links }]

def port (carrier : Bool) : NetworkStatus := ⟨ascii "end0", carrier⟩

def watching : World := run watched.site device [.restart [], .call .start [{ config := config }]]

/-- The link goes down, an observation fails, the link disappears, returns and comes up. -/
def linkTicks : List Event :=
  [tickAt 1000 [port true], tickAt 1500 [port false], tickAt 2000 [port false],
    .call .tick [{ time := 3000 }, { time := 3000 }, { fails := true }],
    tickAt 4000 [], tickAt 5000 [port false], tickAt 6000 [port true]]

/-- Two ticks in the last millisecond of the clock. -/
def lastTicks : List Event := [tickAt (2^64 - 1) [port true], tickAt (2^64 - 1) [port true]]

end Fixture

open Fixture

theorem link_events_watched :
    (run watched.site watching linkTicks).linkEvents =
        [linkEvent (Fixture.port false), linkEvent (Fixture.port true)] ∧
      (polls watched.site watching linkTicks).Pairwise fun a b => a.set + 1000 ≤ b.checked := by
  have hes : ∀ e ∈ linkTicks, e.watches = true := by decide
  have hw : watching.carriers = [] := by decide +kernel
  have hd : ∀ links ∈ observations watched.site watching linkTicks, Distinct links := by
    unfold Distinct
    decide +kernel
  have hspaced : ∀ q ∈ polls watched.site watching linkTicks, q.checked ≤ q.set ∧ q.set + 1000 < 2^64 := by
    decide +kernel
  have hnone : watching.linkEvents = [] := by decide +kernel
  have hchanges : linkChanges watched.site.profile.interfaces []
      (observations watched.site watching linkTicks) = [Fixture.port false, Fixture.port true] := by
    decide +kernel
  obtain ⟨hevents, hrate⟩ := link_events hes hw hd
  rw [hnone, hchanges] at hevents
  exact ⟨hevents, hrate hspaced⟩

/-- The time of the next observation wraps around with the clock: two in one millisecond. -/
theorem observations_unspaced :
    (polls watched.site watching lastTicks).map Poll.answer =
        [some [Fixture.port true], some [Fixture.port true]] ∧
      ((polls watched.site watching lastTicks).map fun q => (q.checked, q.set)) =
        [(2^64 - 1, 2^64 - 1), (2^64 - 1, 2^64 - 1)] ∧
      ¬ (polls watched.site watching lastTicks).Pairwise fun a b => a.set + 1000 ≤ b.checked := by
  decide +kernel

end Monutchee.System
