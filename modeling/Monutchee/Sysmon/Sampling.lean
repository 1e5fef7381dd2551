import Monutchee.Lib.Checked
import Monutchee.Sysmon.Monitor

/-!
# What a snapshot holds

The map of channels depends on the names in a directory and not on their order. Every device adds
the readings of its channels or ends the discovery; what was added before stays.
-/

namespace Monutchee.Sysmon
open Monutchee.Lib

variable {α : Type} {num : Double α} {sel : Selector}

/-! ### The map of channels -/

/-- The map without the bound on its size. -/
def channels (names : List Text) : List (Text × Kind) := names.foldl addChannels []

/-- A channel with its kind, and a file that shows it. -/
def Shown (name : Text) (p : Text × Kind) : Prop :=
  channelKind p.1 = some p.2 ∧ ∃ suffix ∈ suffixes, name = p.1 ++ suffix

def Typed (cs : List (Text × Kind)) : Prop := ∀ p ∈ cs, channelKind p.1 = some p.2

/-- The round for one suffix. -/
def addChannel (name : Text) (cs : List (Text × Kind)) (suffix : Text) : List (Text × Kind) :=
  if suffix.isSuffixOf name then
    match channelKind (name.take (name.length - suffix.length)) with
    | some kind => emplace (name.take (name.length - suffix.length)) kind cs
    | none => cs
  else cs

theorem addChannels_eq (cs : List (Text × Kind)) (name : Text) :
    addChannels cs name = suffixes.foldl (addChannel name) cs := rfl

/-- A round leaves the map alone or puts one channel into it. -/
theorem addChannel_cases (name : Text) (cs : List (Text × Kind)) (suffix : Text) :
    (∃ base kind, name = base ++ suffix ∧ channelKind base = some kind ∧
      addChannel name cs suffix = emplace base kind cs) ∨
    (addChannel name cs suffix = cs ∧ ∀ base, name = base ++ suffix → channelKind base = none) := by
  unfold addChannel
  by_cases hs : suffix.isSuffixOf name
  · obtain ⟨base, hbase⟩ := List.isSuffixOf_iff_suffix.mp hs
    have htake : name.take (name.length - suffix.length) = base := by
      rw [← hbase, List.length_append, Nat.add_sub_cancel]
      exact List.take_left
    rw [if_pos hs, htake]
    cases hk : channelKind base with
    | some kind => exact .inl ⟨base, kind, hbase.symm, hk, rfl⟩
    | none =>
      refine .inr ⟨rfl, ?_⟩
      intro other hother
      rw [← hbase] at hother
      rw [← List.append_cancel_right hother, hk]
  · rw [if_neg hs]
    refine .inr ⟨rfl, ?_⟩
    intro base hbase
    exact absurd (List.isSuffixOf_iff_suffix.mpr ⟨base, hbase.symm⟩) hs

theorem addChannel_sorted {name suffix : Text} {cs : List (Text × Kind)}
    (h : cs.Pairwise fun a b => a.1 < b.1) : (addChannel name cs suffix).Pairwise fun a b => a.1 < b.1 := by
  rcases addChannel_cases name cs suffix with ⟨base, kind, -, -, heq⟩ | ⟨heq, -⟩
  · rw [heq]
    exact emplace_sorted h
  · rw [heq]
    exact h

theorem addChannel_length {name suffix : Text} {cs : List (Text × Kind)} :
    cs.length ≤ (addChannel name cs suffix).length := by
  rcases addChannel_cases name cs suffix with ⟨base, kind, -, -, heq⟩ | ⟨heq, -⟩
  · rw [heq]
    exact emplace_sublist.length_le
  · rw [heq]

theorem mem_addChannel {name suffix : Text} {cs : List (Text × Kind)} {p : Text × Kind} (h : Typed cs) :
    p ∈ addChannel name cs suffix ↔ p ∈ cs ∨ (channelKind p.1 = some p.2 ∧ name = p.1 ++ suffix) := by
  rcases addChannel_cases name cs suffix with ⟨base, kind, hname, hkind, heq⟩ | ⟨heq, hnone⟩
  · rw [heq]
    constructor
    · intro hp
      rcases mem_emplace hp with hp | rfl
      · exact .inl hp
      · exact .inr ⟨hkind, hname⟩
    · rintro (hp | ⟨hk, hp⟩)
      · exact emplace_sublist.subset hp
      · have hbase : base = p.1 := List.append_cancel_right (hname.symm.trans hp)
        subst hbase
        -- the entry under the channel's key has the channel's kind
        obtain ⟨w, hw⟩ := @emplace_has_key _ _ _ p.1 kind cs
        have hwk : channelKind p.1 = some w := by
          rcases mem_emplace hw with hw | hw
          · exact h _ hw
          · cases hw
            exact hkind
        rw [hk] at hwk
        cases hwk
        exact hw
  · rw [heq]
    constructor
    · exact .inl
    · rintro (hp | ⟨hk, hp⟩)
      · exact hp
      · rw [hnone _ hp] at hk
        cases hk

theorem Typed.addChannel {name suffix : Text} {cs : List (Text × Kind)} (h : Typed cs) :
    Typed (addChannel name cs suffix) := by
  intro p hp
  rcases (mem_addChannel h).mp hp with hp | ⟨hk, -⟩
  · exact h p hp
  · exact hk

theorem rounds (name : Text) (ss : List Text) {cs : List (Text × Kind)} (h : Typed cs) :
    Typed (ss.foldl (addChannel name) cs) ∧ ∀ p, p ∈ ss.foldl (addChannel name) cs ↔
      p ∈ cs ∨ (channelKind p.1 = some p.2 ∧ ∃ suffix ∈ ss, name = p.1 ++ suffix) := by
  induction ss generalizing cs with
  | nil => exact ⟨h, fun p => by simp⟩
  | cons suffix ss ih =>
    obtain ⟨htyped, hmem⟩ := ih (@Typed.addChannel name suffix cs h)
    refine ⟨htyped, fun p => ?_⟩
    rw [List.foldl_cons, hmem, mem_addChannel h]
    constructor
    · rintro ((hp | ⟨hk, hp⟩) | ⟨hk, s, hs, hp⟩)
      · exact .inl hp
      · exact .inr ⟨hk, suffix, List.mem_cons_self .., hp⟩
      · exact .inr ⟨hk, s, List.mem_cons_of_mem _ hs, hp⟩
    · rintro (hp | ⟨hk, s, hs, hp⟩)
      · exact .inl (.inl hp)
      · rcases List.mem_cons.mp hs with rfl | hs
        · exact .inl (.inr ⟨hk, hp⟩)
        · exact .inr ⟨hk, s, hs, hp⟩

theorem entries (names : List Text) {cs : List (Text × Kind)} (h : Typed cs) :
    ∀ p, p ∈ names.foldl addChannels cs ↔ p ∈ cs ∨ ∃ name ∈ names, Shown name p := by
  induction names generalizing cs with
  | nil =>
    intro p
    simp
  | cons name names ih =>
    intro p
    obtain ⟨htyped, hmem⟩ := rounds name suffixes h
    rw [List.foldl_cons, addChannels_eq, ih htyped, hmem]
    constructor
    · rintro ((hp | hp) | ⟨other, hother, hp⟩)
      · exact .inl hp
      · exact .inr ⟨name, List.mem_cons_self .., hp⟩
      · exact .inr ⟨other, List.mem_cons_of_mem _ hother, hp⟩
    · rintro (hp | ⟨other, hother, hp⟩)
      · exact .inl (.inl hp)
      · rcases List.mem_cons.mp hother with rfl | hother
        · exact .inl (.inr hp)
        · exact .inr ⟨other, hother, hp⟩

theorem mem_channels {names : List Text} {p : Text × Kind} :
    p ∈ channels names ↔ ∃ name ∈ names, Shown name p := by
  have h := entries names (fun q hq => absurd hq List.not_mem_nil) p
  rw [or_iff_right List.not_mem_nil] at h
  exact h

theorem foldl_sorted {β : Type} {f : List (Text × Kind) → β → List (Text × Kind)}
    (hf : ∀ cs b, (cs.Pairwise fun a b => a.1 < b.1) → (f cs b).Pairwise fun a b => a.1 < b.1) (bs : List β)
    {cs : List (Text × Kind)} (h : cs.Pairwise fun a b => a.1 < b.1) :
    (bs.foldl f cs).Pairwise fun a b => a.1 < b.1 := by
  induction bs generalizing cs with
  | nil => exact h
  | cons b bs ih => exact ih (hf cs b h)

theorem channels_sorted (names : List Text) : (channels names).Pairwise fun a b => a.1 < b.1 := by
  apply foldl_sorted ?_ names List.Pairwise.nil
  intro cs name h
  rw [addChannels_eq]
  exact foldl_sorted (fun _ _ => addChannel_sorted) suffixes h

theorem channels_perm {names names' : List Text} (h : names.Perm names') : channels names = channels names' := by
  apply sorted_ext (channels_sorted names) (channels_sorted names')
  intro p
  rw [mem_channels, mem_channels]
  constructor
  · rintro ⟨name, hname, hp⟩
    exact ⟨name, h.mem_iff.mp hname, hp⟩
  · rintro ⟨name, hname, hp⟩
    exact ⟨name, h.mem_iff.mpr hname, hp⟩

theorem enumerate_eq (names : List Text) :
    enumerate names =
      if (channels names).length ≤ 256 then .ok (channels names) else .error (text "too many AMS channels") := by
  apply boundedFold_eq ?_ names (by simp)
  intro cs name
  rw [addChannels_eq]
  exact foldl_size (fun _ _ => addChannel_length) suffixes cs

/-! ### One device -/

/-- What a device adds to a snapshot, or the error that ends the discovery there. -/
def contribution (num : Double α) (sel : Selector) (d : Device) : Except Text (List (Reading α)) := do
  match ← matched sel d with
  | none => return []
  | some identity =>
    let cs ← channelsOf d
    return cs.map (sampleChannel num d identity)

def Healthy (num : Double α) (sel : Selector) (d : Device) : Prop := ∃ rs, contribution num sel d = .ok rs

def readingsOf (num : Double α) (sel : Selector) (d : Device) : List (Reading α) :=
  (contribution num sel d).toOption.getD []

theorem sample_each (d : Device) (identity : Text) (cs : List (Text × Kind)) (s : List (Reading α)) :
    (Act.each (fun channel => Act.modify fun readings => readings ++ [sampleChannel num d identity channel]) cs :
      Prog α Unit) s = (.ret (), s ++ cs.map (sampleChannel num d identity)) := by
  induction cs generalizing s with
  | nil =>
    rw [List.map_nil, List.append_nil]
    rfl
  | cons c cs ih =>
    have hrest := ih (s ++ [sampleChannel num d identity c])
    rw [List.append_assoc] at hrest
    exact (Act.bind_of_ret (Act.modify_apply _ s)).trans hrest

/-- A visit that fails has added nothing. -/
theorem visit_run (d : Device) (s : List (Reading α)) :
    (∃ what, contribution num sel d = .error what ∧ visit num sel d s = (.raise what, s)) ∨
    (Healthy num sel d ∧ visit num sel d s = (.ret (), s ++ readingsOf num sel d)) := by
  unfold Healthy readingsOf contribution visit
  cases hm : matched sel d with
  | error what => exact .inl ⟨what, rfl, rfl⟩
  | ok found =>
    cases found with
    | none =>
      refine .inr ⟨⟨[], rfl⟩, ?_⟩
      show (Act.pure () : Prog α Unit) s = (.ret (), s ++ [])
      rw [List.append_nil]
      rfl
    | some identity =>
      cases hc : channelsOf d with
      | error what =>
        refine .inl ⟨what, rfl, ?_⟩
        show sampleDevice num d identity s = _
        unfold sampleDevice
        rw [hc]
        rfl
      | ok cs =>
        refine .inr ⟨⟨_, rfl⟩, ?_⟩
        show sampleDevice num d identity s = _
        unfold sampleDevice
        rw [hc]
        exact sample_each d identity cs s

/-- What a healthy device contributes. -/
theorem readingsOf_eq {d : Device} {identity : Text} {names : List Text} (hm : matched sel d = .ok (some identity))
    (hl : d.listing = .ok names) (hbound : (channels names).length ≤ 256) :
    contribution num sel d = .ok ((channels names).map (sampleChannel num d identity)) := by
  have hchannels : channelsOf d = .ok (channels names) := by
    unfold Sysmon.channelsOf
    rw [hl]
    show enumerate names = _
    rw [enumerate_eq, if_pos hbound]
  unfold contribution
  rw [hm]
  show (channelsOf d >>= fun cs => pure (cs.map (sampleChannel num d identity))) = _
  rw [hchannels]
  rfl

/-- The readings of a device come from its channels, under its identity. -/
theorem readings_cases (num : Double α) (sel : Selector) (d : Device) : readingsOf num sel d = [] ∨
    ∃ identity names, matched sel d = .ok (some identity) ∧ d.listing = .ok names ∧
      (channels names).length ≤ 256 ∧ readingsOf num sel d = (channels names).map (sampleChannel num d identity) := by
  unfold readingsOf
  cases hc : contribution num sel d with
  | error what => exact .inl rfl
  | ok rs =>
    unfold contribution at hc
    rw [bind_ok] at hc
    obtain ⟨found, hm, hc⟩ := hc
    cases found with
    | none =>
      cases hc
      exact .inl rfl
    | some identity =>
      rw [bind_ok] at hc
      obtain ⟨cs, hcs, hrs⟩ := hc
      unfold Sysmon.channelsOf at hcs
      rw [bind_ok] at hcs
      obtain ⟨names, hl, hcs⟩ := hcs
      rw [enumerate_eq] at hcs
      by_cases hbound : (channels names).length ≤ 256
      · rw [if_pos hbound] at hcs
        cases hcs
        cases hrs
        exact .inr ⟨identity, names, hm, hl, hbound, rfl⟩
      · rw [if_neg hbound] at hcs
        cases hcs

theorem nothing_read {d : Device} {names : List Text} (hl : d.listing = .ok names) (h : channels names = [] ∨ 256 < (channels names).length) :
    readingsOf num sel d = [] := by
  rcases readings_cases num sel d with hnil | ⟨identity', names', -, hl', hbound, hreadings⟩
  · exact hnil
  · rw [hl] at hl'
    cases hl'
    rcases h with h | h
    · rw [hreadings, h]
      rfl
    · omega

/-! ### The whole discovery -/

theorem visits_healthy {ds : List (Text × Device)} (h : ∀ e ∈ ds, Healthy num sel e.2) (s : List (Reading α)) :
    Act.each (fun e : Text × Device => visit num sel e.2) ds s =
      (.ret (), s ++ ds.flatMap fun e => readingsOf num sel e.2) := by
  induction ds generalizing s with
  | nil =>
    rw [List.flatMap_nil, List.append_nil]
    rfl
  | cons e ds ih =>
    rcases @visit_run α num sel e.2 s with ⟨what, herr, -⟩ | ⟨-, hrun⟩
    · obtain ⟨rs, hrs⟩ := h e (List.mem_cons_self ..)
      rw [herr] at hrs
      cases hrs
    · have hrest := ih (fun e' he' => h e' (List.mem_cons_of_mem _ he')) (s ++ readingsOf num sel e.2)
      rw [List.append_assoc] at hrest
      exact (Act.bind_of_ret hrun).trans hrest

/-- The first device that is not healthy ends the discovery. -/
theorem visits_interrupted {before after : List (Text × Device)} {e : Text × Device}
    (h : ∀ e ∈ before, Healthy num sel e.2) (he : ¬ Healthy num sel e.2) (s : List (Reading α)) :
    ∃ what, Act.each (fun e : Text × Device => visit num sel e.2) (before ++ e :: after) s =
      (.raise what, s ++ before.flatMap fun e => readingsOf num sel e.2) := by
  induction before generalizing s with
  | nil =>
    rcases @visit_run α num sel e.2 s with ⟨what, -, hrun⟩ | ⟨hhealthy, -⟩
    · refine ⟨what, ?_⟩
      rw [List.flatMap_nil, List.append_nil]
      exact Act.bind_of_raise hrun
    · exact absurd hhealthy he
  | cons b before ih =>
    rcases @visit_run α num sel b.2 s with ⟨what, herr, -⟩ | ⟨-, hrun⟩
    · obtain ⟨rs, hrs⟩ := h b (List.mem_cons_self ..)
      rw [herr] at hrs
      cases hrs
    · obtain ⟨what, hrest⟩ :=
        ih (fun e' he' => h e' (List.mem_cons_of_mem _ he')) (s ++ readingsOf num sel b.2)
      rw [List.append_assoc] at hrest
      exact ⟨what, (Act.bind_of_ret hrun).trans hrest⟩

/-- The entries of a directory: each name once. -/
structure Tree where
  entries : List (Text × Device)
  nodup : (entries.map Prod.fst).Nodup

def Tree.devices (t : Tree) : List (Text × Device) := t.entries.filter fun e => isDevice e.1

/-- The devices in the order of their names. -/
def Tree.order (t : Tree) : List (Text × Device) := sortBy Prod.fst t.devices

theorem Tree.devices_nodup (t : Tree) : (t.devices.map Prod.fst).Nodup :=
  t.nodup.sublist (List.filter_sublist.map Prod.fst)

theorem Tree.mem_order {t : Tree} {e : Text × Device} : e ∈ t.order ↔ e ∈ t.devices := mem_sortBy

theorem Tree.order_sorted (t : Tree) : t.order.Pairwise fun a b => a.1 < b.1 := sortBy_lt t.devices_nodup

theorem addDevices (es ds : List (Text × Device)) :
    es.foldl addDevice ds = ds ++ es.filter fun e => isDevice e.1 := by
  induction es generalizing ds with
  | nil => simp
  | cons e es ih =>
    rw [List.foldl_cons, ih]
    by_cases he : isDevice e.1 = true
    · simp [addDevice, he]
    · simp [addDevice, he]

theorem discover_eq (t : Tree) (h : t.devices.length ≤ 64) :
    discover num sel (.ok t.entries) = Act.each (fun e => visit num sel e.2) t.order := by
  have hgrows : ∀ ds e, List.length ds ≤ (addDevice ds e).length := by
    intro ds e
    unfold addDevice
    split <;> simp
  have hfold : boundedFold addDevice List.length 64 (text "too many IIO devices") [] t.entries = .ok t.devices := by
    rw [boundedFold_eq hgrows t.entries (by simp), addDevices, List.nil_append]
    exact if_pos h
  have hrun : (discover num sel (.ok t.entries) : Prog α Unit) =
      Act.lift (boundedFold addDevice List.length 64 (text "too many IIO devices") [] t.entries) >>= fun devices =>
        Act.each (fun e => visit num sel e.2) (sortBy Prod.fst devices) := rfl
  rw [hrun, hfold]
  rfl

variable {t : Tree}

theorem snapshot_unsupported {root : Except Text (List (Text × Device))} (h : sel.compatible ≠ text "xlnx,zynqmp-ams") :
    readSnapshot num sel root = ⟨text "unsupported", text "unsupported SYSMON compatible", []⟩ := if_pos h

theorem snapshot_healthy (hsel : sel.compatible = text "xlnx,zynqmp-ams") (hcount : t.devices.length ≤ 64)
    (h : ∀ e ∈ t.devices, Healthy num sel e.2) :
    readSnapshot num sel (.ok t.entries) = sorted (t.order.flatMap fun e => readingsOf num sel e.2) := by
  have hrun := @visits_healthy α num sel t.order (fun e he => h e (Tree.mem_order.mp he)) ([] : List (Reading α))
  unfold readSnapshot
  rw [if_neg (not_not.mpr hsel), discover_eq t hcount, hrun, List.nil_append]

theorem snapshot_interrupted (hsel : sel.compatible = text "xlnx,zynqmp-ams") (hcount : t.devices.length ≤ 64)
    {before after : List (Text × Device)} {e : Text × Device} (horder : t.order = before ++ e :: after)
    (h : ∀ e ∈ before, Healthy num sel e.2) (he : ¬ Healthy num sel e.2) :
    readSnapshot num sel (.ok t.entries) = interrupted (before.flatMap fun e => readingsOf num sel e.2) := by
  obtain ⟨what, hrun⟩ := @visits_interrupted α num sel before after e h he ([] : List (Reading α))
  unfold readSnapshot
  rw [if_neg (not_not.mpr hsel), discover_eq t hcount, horder, hrun, List.nil_append]

/-- The first device that is not healthy, if there is one. -/
theorem first_failure (num : Double α) (sel : Selector) (ds : List (Text × Device)) :
    (∀ e ∈ ds, Healthy num sel e.2) ∨ ∃ before e after, ds = before ++ e :: after ∧
      (∀ e ∈ before, Healthy num sel e.2) ∧ ¬ Healthy num sel e.2 := by
  induction ds with
  | nil => exact .inl fun e he => absurd he List.not_mem_nil
  | cons d ds ih =>
    by_cases hd : Healthy num sel d.2
    · rcases ih with hall | ⟨before, e, after, rfl, hbefore, he⟩
      · exact .inl (List.forall_mem_cons.mpr ⟨hd, hall⟩)
      · exact .inr ⟨d :: before, e, after, rfl, List.forall_mem_cons.mpr ⟨hd, hbefore⟩, he⟩
    · exact .inr ⟨[], d, ds, rfl, fun e he => absurd he List.not_mem_nil, hd⟩

theorem readings_sorted (rs : List (Reading α)) : (sorted rs).readings = sortBy Reading.id rs := by
  unfold sorted
  simp only
  split <;> rfl

instance (num : Double α) (sel : Selector) (d : Device) : Decidable (Healthy num sel d) :=
  match h : contribution num sel d with
  | .ok rs => .isTrue ⟨rs, h⟩
  | .error _ => .isFalse fun ⟨rs, hrs⟩ => by
    rw [h] at hrs
    cases hrs

/-- The readings of the devices before the first that is not healthy. -/
def leading (num : Double α) (sel : Selector) (ds : List (Text × Device)) : List (Reading α) :=
  (ds.takeWhile fun e => Healthy num sel e.2).flatMap fun e => readingsOf num sel e.2

theorem leading_append (num : Double α) (sel : Selector) {before : List (Text × Device)}
    (h : ∀ e ∈ before, Healthy num sel e.2) (ds : List (Text × Device)) :
    leading num sel (before ++ ds) = (before.flatMap fun e => readingsOf num sel e.2) ++ leading num sel ds := by
  unfold leading
  rw [List.takeWhile_append_of_pos fun e he => decide_eq_true (h e he), List.flatMap_append]

theorem leading_failed {e : Text × Device} (he : ¬ Healthy num sel e.2) (ds : List (Text × Device)) :
    leading num sel (e :: ds) = [] := by
  unfold leading
  rw [List.takeWhile_cons_of_neg (by simpa using he)]
  rfl

theorem snapshot_readings (hsel : sel.compatible = text "xlnx,zynqmp-ams") (hcount : t.devices.length ≤ 64) :
    (readSnapshot num sel (.ok t.entries)).readings.Perm (leading num sel t.order) := by
  rcases first_failure num sel t.order with hall | ⟨before, e, after, horder, hbefore, he⟩
  · have hleading := leading_append num sel hall []
    rw [List.append_nil] at hleading
    rw [snapshot_healthy hsel hcount fun e he => hall e (Tree.mem_order.mpr he), readings_sorted, hleading]
    exact (sortBy_perm _ _).trans (List.Perm.of_eq (List.append_nil _).symm)
  · rw [snapshot_interrupted hsel hcount horder hbefore he, horder, leading_append num sel hbefore,
      leading_failed he, List.append_nil]
    exact List.Perm.refl _

end Monutchee.Sysmon
