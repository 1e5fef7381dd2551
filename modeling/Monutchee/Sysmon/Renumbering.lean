import Mathlib.Logic.Equiv.Basic
import Mathlib.Data.List.Forall2
import Mathlib.Algebra.Order.Ring.Rat
import Monutchee.Sysmon.Sampling

/-!
# Snapshots and the numbers of IIO devices (sysmon.cpp:89-212, README.md:26-32)

The readings are sorted by identities that do not contain the number of a device, so that numbers
and the order of listings leave no trace in a snapshot. The handler of the discovery returns the
readings so far without sorting them: when a matching device directory cannot be listed, what it
returns depends on the number of that device.
-/

namespace Monutchee.Sysmon
open Monutchee.Lib

variable {α : Type} {num : Double α} {sel : Selector} {t t' : Tree}

/-! ### Other numbers, another order -/

inductive Relisted : Except Text (List Text) → Except Text (List Text) → Prop
  | listed {names names' : List Text} (h : names.Perm names') : Relisted (.ok names) (.ok names')
  | failed (what : Text) : Relisted (.error what) (.error what)

/-- The same directory, listed in another order. -/
structure SameDevice (d d' : Device) : Prop where
  file : d'.file = d.file
  listing : Relisted d.listing d'.listing
  ofNode : d'.ofNode = d.ofNode
  parentNode : d'.parentNode = d.parentNode

/-- `t'` is `t` with other numbers, listed in another order. As the names of `t'` are distinct, `rename`
is one to one on those of `t`. -/
def Renumbered (t t' : Tree) : Prop :=
  ∃ rename : Text → Text,
    (∀ name, isDevice name = true → isDevice (rename name) = true) ∧
    (∀ name, isDevice name = false → rename name = name) ∧
    ∃ renamed : List (Text × Device),
      List.Forall₂ (fun e e' => e'.1 = rename e.1 ∧ SameDevice e.2 e'.2) t.entries renamed ∧
      renamed.Perm t'.entries

/-- The OF node of a device can be read and resolved. -/
structure Resolvable (d : Device) : Prop where
  reads : ∃ own, hasAttribute (d.file (text "of_node")) = .ok own ∧
    (∃ values, read (if own then d.ofNode else d.parentNode).compatible = .ok values) ∧
    ∃ path, (if own then d.ofNode else d.parentNode).canonical = .ok path

/-- The devices of a tree as the identities need them. -/
structure Regular (sel : Selector) (t : Tree) : Prop where
  few : t.devices.length ≤ 64
  resolvable : ∀ e ∈ t.devices, read (e.2.file (text "name")) = .ok (text "xilinx-ams") → Resolvable e.2
  bounded : ∀ e ∈ t.devices, ∀ identity names, matched sel e.2 = .ok (some identity) →
    e.2.listing = .ok names → (channels names).length ≤ 256
  distinct : ∀ e ∈ t.devices, ∀ e' ∈ t.devices, ∀ identity, matched sel e.2 = .ok (some identity) →
    matched sel e'.2 = .ok (some identity) → e = e'

/-- Every device that is to be sampled can be listed. -/
def Listable (sel : Selector) (t : Tree) : Prop :=
  ∀ e ∈ t.devices, ∀ identity, matched sel e.2 = .ok (some identity) → ∃ names, e.2.listing = .ok names

/-- No device that is to be sampled and can be listed shows a channel. -/
def Channelless (sel : Selector) (t : Tree) : Prop :=
  ∀ e ∈ t.devices, ∀ identity names, matched sel e.2 = .ok (some identity) → e.2.listing = .ok names →
    channels names = []

/-! ### A device under another number -/

theorem SameDevice.refl (d : Device) : SameDevice d d := by
  refine ⟨rfl, ?_, rfl, rfl⟩
  cases d.listing with
  | ok names => exact .listed (List.Perm.refl names)
  | error what => exact .failed what

theorem SameDevice.matched {d d' : Device} (h : SameDevice d d') : matched sel d' = matched sel d := by
  unfold Sysmon.matched
  rw [h.file, h.ofNode, h.parentNode]

theorem SameDevice.sample {d d' : Device} (h : SameDevice d d') (identity : Text) :
    sampleChannel num d' identity = sampleChannel num d identity := by
  funext channel
  unfold sampleChannel labelOf convert engineering attributeOf
  rw [h.file]

theorem Relisted.enumerate {listing listing' : Except Text (List Text)} (h : Relisted listing listing') :
    (listing' >>= enumerate) = (listing >>= enumerate) := by
  cases h with
  | failed what => rfl
  | @listed names names' hperm =>
    show Sysmon.enumerate names' = Sysmon.enumerate names
    rw [enumerate_eq, enumerate_eq, channels_perm hperm]

theorem SameDevice.channelsOf {d d' : Device} (h : SameDevice d d') : channelsOf d' = channelsOf d :=
  h.listing.enumerate

theorem SameDevice.contribution {d d' : Device} (h : SameDevice d d') :
    contribution num sel d' = contribution num sel d := by
  unfold Sysmon.contribution
  rw [h.matched]
  simp only [h.channelsOf, h.sample]

theorem same_contributions {es es' : List (Text × Device)}
    (h : List.Forall₂ (fun e e' => isDevice e'.1 = isDevice e.1 ∧ SameDevice e.2 e'.2) es es') :
    ((es'.filter fun e => isDevice e.1).map fun e => contribution num sel e.2) =
      (es.filter fun e => isDevice e.1).map fun e => contribution num sel e.2 := by
  induction h with
  | nil => rfl
  | @cons e e' _ _ hsame _ ih =>
    obtain ⟨hname, hdevice⟩ := hsame
    by_cases he : isDevice e.1 = true
    · simp only [List.filter_cons, hname, he, if_true, List.map_cons, hdevice.contribution, ih]
    · simp only [List.filter_cons, hname, he, Bool.false_eq_true, if_false, ih]

/-- The devices contribute the same, in some order. -/
theorem Renumbered.contributions (h : Renumbered t t') :
    (t'.devices.map fun e => contribution num sel e.2).Perm (t.devices.map fun e => contribution num sel e.2) := by
  obtain ⟨rename, hdevice, hother, renamed, hrenamed, hperm⟩ := h
  have hsame : List.Forall₂ (fun e e' => isDevice e'.1 = isDevice e.1 ∧ SameDevice e.2 e'.2) t.entries renamed := by
    apply hrenamed.imp
    rintro e e' ⟨hname, hd⟩
    refine ⟨?_, hd⟩
    rw [hname]
    cases he : isDevice e.1 with
    | true => exact hdevice _ he
    | false => rw [hother _ he, he]
  unfold Tree.devices
  rw [← same_contributions hsame]
  exact ((hperm.symm.filter _).map _)

theorem Renumbered.forall_contribution (h : Renumbered t t') {P : Except Text (List (Reading α)) → Prop} :
    (∀ e ∈ t'.devices, P (contribution num sel e.2)) ↔ ∀ e ∈ t.devices, P (contribution num sel e.2) := by
  have hperm := @Renumbered.contributions α num sel t t' h
  have hmap : ∀ u : Tree, (∀ c ∈ u.devices.map fun e => contribution num sel e.2, P c) ↔
      ∀ e ∈ u.devices, P (contribution num sel e.2) := fun u => List.forall_mem_map
  rw [← hmap, ← hmap]
  constructor
  · intro hall c hc
    exact hall c (hperm.mem_iff.mpr hc)
  · intro hall c hc
    exact hall c (hperm.mem_iff.mp hc)

theorem Renumbered.healthy (h : Renumbered t t') :
    (∀ e ∈ t'.devices, Healthy num sel e.2) ↔ ∀ e ∈ t.devices, Healthy num sel e.2 :=
  h.forall_contribution (P := fun c => ∃ rs, c = .ok rs)

theorem Renumbered.few (h : Renumbered t t') (hfew : t.devices.length ≤ 64) : t'.devices.length ≤ 64 := by
  have hlength := (@Renumbered.contributions (List ℕ) ⟨fun _ => none, [], fun _ => id, fun _ => id, id, fun _ => true,
    fun _ => true⟩ ⟨[], []⟩ t t' h).length_eq
  rw [List.length_map, List.length_map] at hlength
  omega

theorem Renumbered.readings (h : Renumbered t t') :
    (t'.order.flatMap fun e => readingsOf num sel e.2).Perm (t.order.flatMap fun e => readingsOf num sel e.2) := by
  have horder : ∀ u : Tree, (u.order.flatMap fun e => readingsOf num sel e.2).Perm
      ((u.devices.map fun e => contribution num sel e.2).flatMap fun c => c.toOption.getD []) := by
    intro u
    rw [List.flatMap_map]
    exact (sortBy_perm Prod.fst u.devices).flatMap_right _
  exact ((horder t').trans (h.contributions.flatMap_right _)).trans (horder t).symm

/-! ### Identities -/

theorem sampleChannel_id (d : Device) (identity : Text) (c : Text × Kind) :
    (sampleChannel num d identity c).id = identity ++ 47 :: c.1 := by
  have hslash : identity ++ text "/" ++ c.1 = identity ++ 47 :: c.1 := by
    rw [List.append_assoc]
    rfl
  unfold sampleChannel
  simp only
  split
  · exact hslash
  · split <;> exact hslash

/-- No channel has a slash in its name. -/
theorem channel_plain {channel : Text} {kind : Kind} (h : channelKind channel = some kind) : 47 ∉ channel := by
  unfold channelKind at h
  have hfits := List.find?_some h
  simp only [Bool.and_eq_true] at hfits
  obtain ⟨hstart, hindex⟩ := hfits
  obtain ⟨index, rfl⟩ := List.isPrefixOf_iff_prefix.mp hstart
  rw [List.drop_left] at hindex
  have hdigits := (Bool.and_eq_true_iff.mp hindex).2
  rw [List.all_eq_true] at hdigits
  intro hm
  rcases List.mem_append.mp hm with hm | hm
  · cases kind with
    | voltage => exact absurd hm (by decide)
    | temp => exact absurd hm (by decide)
  · exact absurd (hdigits 47 hm) (by decide)

theorem channels_plain {names : List Text} {c : Text × Kind} (h : c ∈ channels names) : 47 ∉ c.1 := by
  obtain ⟨name, -, hkind, -⟩ := mem_channels.mp h
  exact channel_plain hkind

theorem id_inj {identity identity' channel channel' : Text} (h : 47 ∉ channel) (h' : 47 ∉ channel')
    (heq : identity ++ 47 :: channel = identity' ++ 47 :: channel') : identity = identity' ∧ channel = channel' := by
  rcases List.append_eq_append_iff.mp heq with ⟨between, hleft, hright⟩ | ⟨between, hleft, hright⟩
  · cases between with
    | nil =>
      rw [List.append_nil] at hleft
      exact ⟨hleft.symm, (List.cons.inj hright).2⟩
    | cons c rest =>
      exact absurd ((List.cons.inj hright).2 ▸ List.mem_append_right _ (List.mem_cons_self ..)) h
  · cases between with
    | nil =>
      rw [List.append_nil] at hleft
      exact ⟨hleft, (List.cons.inj hright).2.symm⟩
    | cons c rest =>
      exact absurd ((List.cons.inj hright).2 ▸ List.mem_append_right _ (List.mem_cons_self ..)) h'

theorem channels_inj {names : List Text} {c c' : Text × Kind} (hc : c ∈ channels names) (hc' : c' ∈ channels names)
    (h : c.1 = c'.1) : c = c' := by
  have hkeys : ((channels names).map Prod.fst).Nodup :=
    List.pairwise_map.mpr ((channels_sorted names).imp fun hab => ne_of_lt hab)
  exact List.inj_on_of_nodup_map hkeys hc hc' h

/-- Distinct identities give distinct ids. -/
theorem ids_nodup (hregular : Regular sel t) :
    ((t.order.flatMap fun e => readingsOf num sel e.2).map Reading.id).Nodup := by
  rw [List.map_flatMap, List.nodup_flatMap]
  constructor
  · intro e he
    rcases readings_cases num sel e.2 with hnil | ⟨identity, names, -, -, -, hreadings⟩
    · rw [hnil]
      exact List.nodup_nil
    · have hchannels : (channels names).Nodup :=
        (channels_sorted names).imp fun hab hne => absurd hab (by rw [hne]; exact lt_irrefl _)
      rw [hreadings, List.map_map]
      apply hchannels.map_on
      intro c hc c' hc' hid
      rw [Function.comp_apply, Function.comp_apply, sampleChannel_id, sampleChannel_id] at hid
      exact channels_inj hc hc' (id_inj (channels_plain hc) (channels_plain hc') hid).2
  · apply t.order_sorted.imp_of_mem
    intro e e' he he' hlt id hid hid'
    obtain ⟨r, hr, rfl⟩ := List.mem_map.mp hid
    obtain ⟨r', hr', heq⟩ := List.mem_map.mp hid'
    rcases readings_cases num sel e.2 with hnil | ⟨identity, names, hm, -, -, hreadings⟩
    · rw [hnil] at hr
      cases hr
    rcases readings_cases num sel e'.2 with hnil | ⟨identity', names', hm', -, -, hreadings'⟩
    · rw [hnil] at hr'
      cases hr'
    rw [hreadings] at hr
    rw [hreadings'] at hr'
    obtain ⟨c, hc, rfl⟩ := List.mem_map.mp hr
    obtain ⟨c', hc', rfl⟩ := List.mem_map.mp hr'
    rw [sampleChannel_id, sampleChannel_id] at heq
    have hidentity := (id_inj (channels_plain hc') (channels_plain hc) heq).1
    rw [hidentity] at hm'
    have hsame := hregular.distinct e (Tree.mem_order.mp he) e' (Tree.mem_order.mp he') identity hm hm'
    rw [hsame] at hlt
    exact lt_irrefl _ hlt

/-! ### Which device comes first -/

/-- Two names exchanged. -/
def Tree.exchange (t : Tree) (a b : Text) : Tree where
  entries := t.entries.map fun e => (Equiv.swap a b e.1, e.2)
  nodup := by
    have h := t.nodup.map (Equiv.swap a b).injective
    rwa [List.map_map] at h ⊢

theorem swap_isDevice {a b : Text} (ha : isDevice a = true) (hb : isDevice b = true) (name : Text) :
    isDevice (Equiv.swap a b name) = isDevice name := by
  rw [Equiv.swap_apply_def]
  split
  next h => rw [h, ha, hb]
  next =>
    split
    next h => rw [h, ha, hb]
    next => rfl

theorem exchange_renumbered {a b : Text} (ha : isDevice a = true) (hb : isDevice b = true) :
    Renumbered t (t.exchange a b) := by
  refine ⟨Equiv.swap a b, ?_, ?_, (t.exchange a b).entries, ?_, List.Perm.refl _⟩
  · intro name hname
    rw [swap_isDevice ha hb, hname]
  · intro name hname
    apply Equiv.swap_apply_of_ne_of_ne
    · rintro rfl
      rw [ha] at hname
      cases hname
    · rintro rfl
      rw [hb] at hname
      cases hname
  · apply List.forall₂_map_right_iff.mpr
    apply List.forall₂_same.mpr
    intro e _
    exact ⟨rfl, SameDevice.refl e.2⟩

theorem mem_exchange {a b : Text} (ha : isDevice a = true) (hb : isDevice b = true) {e' : Text × Device} :
    e' ∈ (t.exchange a b).devices ↔ ∃ e ∈ t.devices, e' = (Equiv.swap a b e.1, e.2) := by
  unfold Tree.devices Tree.exchange
  simp only [List.mem_filter, List.mem_map]
  constructor
  · rintro ⟨⟨e, he, rfl⟩, hname⟩
    rw [swap_isDevice ha hb] at hname
    exact ⟨e, ⟨he, hname⟩, rfl⟩
  · rintro ⟨e, ⟨he, hname⟩, rfl⟩
    refine ⟨⟨e, he, rfl⟩, ?_⟩
    rw [swap_isDevice ha hb, hname]

/-- Any device can be given the first name. -/
theorem moved_first {e : Text × Device} (he : e ∈ t.devices) :
    ∃ t' name rest, Renumbered t t' ∧ t'.order = (name, e.2) :: rest := by
  have hmem : e ∈ t.order := Tree.mem_order.mpr he
  cases horder : t.order with
  | nil =>
    rw [horder] at hmem
    cases hmem
  | cons first others =>
    have hfirst : first ∈ t.devices := by
      have h : first ∈ t.order := by
        rw [horder]
        exact List.mem_cons_self ..
      exact Tree.mem_order.mp h
    have hleast : ∀ d ∈ t.devices, first.1 ≤ d.1 := fun d hd => le_of_head horder hd
    have hname : ∀ d ∈ t.devices, isDevice d.1 = true := fun d hd => (List.mem_filter.mp hd).2
    have hf := hname first hfirst
    have he' := hname e he
    have hhead : (first.1, e.2) ∈ (t.exchange first.1 e.1).devices :=
      (mem_exchange hf he').mpr ⟨e, he, by rw [Equiv.swap_apply_right]⟩
    -- the exchange keeps the set of names, so that the first is still the least
    have hbelow : ∀ d ∈ (t.exchange first.1 e.1).devices, first.1 ≤ d.1 := by
      intro d hd
      obtain ⟨b, hb, rfl⟩ := (mem_exchange hf he').mp hd
      show first.1 ≤ Equiv.swap first.1 e.1 b.1
      rw [Equiv.swap_apply_def]
      split
      · exact hleast e he
      · split
        · exact le_rfl
        · exact hleast b hb
    obtain ⟨rest, hrest⟩ := sortBy_head (t.exchange first.1 e.1).devices_nodup hhead hbelow
    exact ⟨t.exchange first.1 e.1, first.1, rest, exchange_renumbered hf he', hrest⟩

/-! ### The snapshot -/

theorem matched_ok {d : Device} (h : read (d.file (text "name")) = .ok (text "xilinx-ams") → Resolvable d) :
    ∃ found, matched sel d = .ok found := by
  unfold matched
  cases hname : read (d.file (text "name")) with
  | error what => exact ⟨none, rfl⟩
  | ok name =>
    by_cases hams : name = text "xilinx-ams"
    · subst hams
      obtain ⟨own, hown, ⟨values, hvalues⟩, path, hpath⟩ := (h hname).reads
      have hcompatible : compatible (if own then d.ofNode else d.parentNode) sel.compatible =
          .ok (decide (sel.compatible ∈ propertyStrings values)) := by
        unfold compatible
        rw [hvalues]
        rfl
      simp only [ne_eq, not_true_eq_false, if_false]
      rw [bind_of_ok hown, bind_of_ok hcompatible]
      split
      · exact ⟨none, rfl⟩
      · rw [bind_of_ok hpath]
        split
        · exact ⟨none, rfl⟩
        · exact ⟨_, rfl⟩
    · exact ⟨none, if_pos hams⟩

theorem healthy_of_listable (hregular : Regular sel t) (h : Listable sel t) :
    ∀ e ∈ t.devices, Healthy num sel e.2 := by
  intro e he
  obtain ⟨found, hfound⟩ := @matched_ok sel e.2 (hregular.resolvable e he)
  cases found with
  | none =>
    refine ⟨[], ?_⟩
    unfold contribution
    rw [hfound]
    rfl
  | some identity =>
    obtain ⟨names, hnames⟩ := h e he identity hfound
    exact ⟨_, readingsOf_eq hfound hnames (hregular.bounded e he identity names hfound hnames)⟩

theorem snapshot_renumbered (hsel : sel.compatible = text "xlnx,zynqmp-ams") (hregular : Regular sel t)
    (h : Listable sel t) (hr : Renumbered t t') :
    readSnapshot num sel (.ok t'.entries) = readSnapshot num sel (.ok t.entries) := by
  have hhealthy := @healthy_of_listable α num sel t hregular h
  rw [snapshot_healthy hsel hregular.few hhealthy, snapshot_healthy hsel (hr.few hregular.few) (hr.healthy.mpr hhealthy)]
  unfold sorted
  rw [sortBy_eq_of_perm hr.readings.symm (ids_nodup hregular)]

theorem snapshot_sorted (hsel : sel.compatible = text "xlnx,zynqmp-ams") (hregular : Regular sel t)
    (h : Listable sel t) : (readSnapshot num sel (.ok t.entries)).readings.Pairwise fun a b => a.id < b.id := by
  rw [snapshot_healthy hsel hregular.few (healthy_of_listable hregular h), readings_sorted]
  exact sortBy_lt (ids_nodup hregular)

/-- Without channels there is one snapshot for each outcome of the discovery. -/
theorem snapshot_channelless (hsel : sel.compatible = text "xlnx,zynqmp-ams") (hcount : t.devices.length ≤ 64)
    (h : ∀ e ∈ t.devices, readingsOf num sel e.2 = []) :
    (readSnapshot num sel (.ok t.entries)).readings = [] ∧
    ((∀ e ∈ t.devices, Healthy num sel e.2) → readSnapshot num sel (.ok t.entries) = sorted []) ∧
    ((¬ ∀ e ∈ t.devices, Healthy num sel e.2) → readSnapshot num sel (.ok t.entries) = interrupted []) := by
  have hnone : ∀ es : List (Text × Device), (∀ e ∈ es, e ∈ t.order) →
      (es.flatMap fun e => readingsOf num sel e.2) = [] := by
    intro es hes
    rw [List.flatMap_eq_nil_iff]
    exact fun e he => h e (Tree.mem_order.mp (hes e he))
  rcases first_failure num sel t.order with hall | ⟨before, e, after, horder, hbefore, he⟩
  · have hhealthy : ∀ e ∈ t.devices, Healthy num sel e.2 := fun e he => hall e (Tree.mem_order.mpr he)
    have hsnapshot := snapshot_healthy hsel hcount hhealthy
    rw [hnone t.order fun _ he => he] at hsnapshot
    refine ⟨?_, fun _ => hsnapshot, fun hnot => absurd hhealthy hnot⟩
    rw [hsnapshot]
    rfl
  · have hsnapshot := snapshot_interrupted hsel hcount horder hbefore he
    rw [hnone before fun b hb => by rw [horder]; exact List.mem_append_left _ hb] at hsnapshot
    have hmem : e ∈ t.devices := by
      have hin : e ∈ t.order := by
        rw [horder]
        exact List.mem_append_right _ (List.mem_cons_self ..)
      exact Tree.mem_order.mp hin
    refine ⟨?_, fun hall => absurd (hall e hmem) he, fun _ => hsnapshot⟩
    rw [hsnapshot]
    rfl

theorem readings_channelless (h : Channelless sel t) : ∀ e ∈ t.devices, readingsOf num sel e.2 = [] := by
  intro e he
  rcases readings_cases num sel e.2 with hnil | ⟨identity, names, hm, hl, -, hreadings⟩
  · exact hnil
  · rw [hreadings, h e he identity names hm hl]
    rfl

/-- A first device that shows a channel is in the snapshot. -/
theorem first_shown (hsel : sel.compatible = text "xlnx,zynqmp-ams") (hcount : t.devices.length ≤ 64)
    {e : Text × Device} {rest : List (Text × Device)} (horder : t.order = e :: rest) (he : Healthy num sel e.2)
    (hshown : readingsOf num sel e.2 ≠ []) : (readSnapshot num sel (.ok t.entries)).readings ≠ [] := by
  have hperm := @snapshot_readings α num sel t hsel hcount
  have hleading := @leading_append α num sel [e] (by simpa using he) rest
  rw [List.singleton_append, List.flatMap_singleton] at hleading
  intro hnil
  rw [hnil, horder, hleading] at hperm
  have hempty := hperm.symm.eq_nil
  exact hshown (List.append_eq_nil_iff.mp hempty).1

/-- A first device that cannot be listed leaves nothing to show. -/
theorem first_failed (hsel : sel.compatible = text "xlnx,zynqmp-ams") (hcount : t.devices.length ≤ 64)
    {e : Text × Device} {rest : List (Text × Device)} (horder : t.order = e :: rest) (he : ¬ Healthy num sel e.2) :
    (readSnapshot num sel (.ok t.entries)).readings = [] := by
  rw [@snapshot_interrupted α num sel t hsel hcount [] rest e horder (fun e he => absurd he List.not_mem_nil) he]
  rfl

theorem not_healthy {d : Device} {identity : Text} (hm : matched sel d = .ok (some identity))
    (hl : ¬ ∃ names, d.listing = .ok names) : ¬ Healthy num sel d := by
  rintro ⟨rs, hrs⟩
  unfold contribution channelsOf at hrs
  rw [hm] at hrs
  obtain ⟨found, hfound, hrs⟩ := bind_ok.mp hrs
  cases hfound
  obtain ⟨cs, hcs, -⟩ := bind_ok.mp hrs
  obtain ⟨names, hnames, -⟩ := bind_ok.mp hcs
  exact hl ⟨names, hnames⟩

/-- Without channels the numbers do not matter either. -/
theorem channelless_renumbered (hsel : sel.compatible = text "xlnx,zynqmp-ams") (hregular : Regular sel t)
    (h : Channelless sel t) (hr : Renumbered t t') :
    readSnapshot num sel (.ok t'.entries) = readSnapshot num sel (.ok t.entries) := by
  have hreadings := @readings_channelless α num sel t h
  have hreadings' : ∀ e ∈ t'.devices, readingsOf num sel e.2 = [] :=
    (hr.forall_contribution (P := fun c => c.toOption.getD [] = [])).mpr hreadings
  obtain ⟨-, hall, hsome⟩ := snapshot_channelless hsel hregular.few hreadings
  obtain ⟨-, hall', hsome'⟩ := snapshot_channelless hsel (hr.few hregular.few) hreadings'
  by_cases hhealthy : ∀ e ∈ t.devices, Healthy num sel e.2
  · rw [hall hhealthy, hall' (hr.healthy.mpr hhealthy)]
  · rw [hsome hhealthy, hsome' fun hall'' => hhealthy (hr.healthy.mp hall'')]

/-- One device that cannot be listed and one that shows a channel: the first of them decides. -/
theorem listable_or_channelless (hsel : sel.compatible = text "xlnx,zynqmp-ams") (hregular : Regular sel t)
    (h : ∀ t', Renumbered t t' →
      readSnapshot num sel (.ok t'.entries) = readSnapshot num sel (.ok t.entries)) :
    Listable sel t ∨ Channelless sel t := by
  by_contra hnot
  obtain ⟨hlistable, hchannels⟩ := not_or.mp hnot
  unfold Listable at hlistable
  unfold Channelless at hchannels
  simp only [not_forall] at hlistable hchannels
  obtain ⟨failing, hfailing, identity, hm, hl⟩ := hlistable
  obtain ⟨shown, hshown, identity', names, hm', hl', hc⟩ := hchannels
  obtain ⟨t₁, name₁, rest₁, hr₁, horder₁⟩ := moved_first hfailing
  obtain ⟨t₂, name₂, rest₂, hr₂, horder₂⟩ := moved_first hshown
  have hempty := @first_failed α num sel t₁ hsel (hr₁.few hregular.few) _ _ horder₁ (not_healthy hm hl)
  have hcontribution := @readingsOf_eq α num sel _ _ _ hm' hl' (hregular.bounded shown hshown identity' names hm' hl')
  have hreadings : readingsOf num sel shown.2 ≠ [] := by
    unfold readingsOf
    rw [hcontribution]
    show (channels names).map _ ≠ []
    simpa using hc
  have hnonempty := first_shown hsel (hr₂.few hregular.few) horder₂ ⟨_, hcontribution⟩ hreadings
  rw [h t₁ hr₁] at hempty
  rw [h t₂ hr₂] at hnonempty
  exact hnonempty hempty

/-- A snapshot depends on nothing but the devices, and its ids are distinct and sorted, exactly if every
device that is to be sampled can be listed or none of those listed shows a channel. -/
theorem snapshot_renumbering_iff (num : Double α) (sel : Selector) (t : Tree) (hregular : Regular sel t) :
    ((∀ t', Renumbered t t' → readSnapshot num sel (.ok t'.entries) = readSnapshot num sel (.ok t.entries)) ∧
      (readSnapshot num sel (.ok t.entries)).readings.Pairwise fun a b => a.id < b.id) ↔
    sel.compatible ≠ text "xlnx,zynqmp-ams" ∨ Listable sel t ∨ Channelless sel t := by
  by_cases hsel : sel.compatible = text "xlnx,zynqmp-ams"
  · constructor
    · rintro ⟨hsame, -⟩
      exact .inr (listable_or_channelless hsel hregular hsame)
    · rintro (h | h | h)
      · exact absurd hsel h
      · exact ⟨fun t' hr => snapshot_renumbered hsel hregular h hr, snapshot_sorted hsel hregular h⟩
      · refine ⟨fun t' hr => channelless_renumbered hsel hregular h hr, ?_⟩
        rw [(snapshot_channelless hsel hregular.few (readings_channelless h)).1]
        exact List.Pairwise.nil
  · refine ⟨fun _ => .inl hsel, fun _ => ⟨?_, ?_⟩⟩
    · intro t' _
      rw [snapshot_unsupported hsel, snapshot_unsupported hsel]
    · rw [snapshot_unsupported hsel]
      exact List.Pairwise.nil

namespace Sample

/-- Whole numbers are all that the files below have. -/
def wholeNumbers : Double ℚ where
  fromChars chars := if isIndex chars then some (chars.foldl (fun n c => 10 * n + (c - 48)) 0 : ℕ) else none
  zero := 0
  add a b := a + b
  mul a b := a * b
  perThousand a := a / 1000
  isPositive a := 0 < a
  isFinite _ := true

def ams : Selector := ⟨text "xlnx,zynqmp-ams", []⟩

/-- A device with one rail. -/
def device (node : String) (listing : Except Text (List Text)) : Device where
  file name :=
    if name = text "name" then .content (text "xilinx-ams\n")
    else if name = text "of_node" then .broken
    else if name = text "in_voltage6_raw" then .content (text "1442\n")
    else if name = text "in_voltage6_scale" then .content (text "2\n")
    else .absent
  listing := listing
  ofNode := ⟨.content (text "xlnx,zynqmp-ams" ++ [0]), .ok (text "/sys/firmware/devicetree/base/axi/" ++ text node)⟩
  parentNode := ⟨.absent, .error (text "No such file or directory")⟩

def files : Except Text (List Text) :=
  .ok [text "name", text "of_node", text "in_voltage6_raw", text "in_voltage6_scale"]

/-- Two devices. -/
def tree (listing : Except Text (List Text)) : Tree where
  entries := [(text "iio:device0", device "ams@ffa50000" files), (text "iio:device1", device "ams@ffa60000" listing)]
  nodup := by
    show [text "iio:device0", text "iio:device1"].Nodup
    decide

theorem tree_matched {listing : Except Text (List Text)} {e : Text × Device} (he : e ∈ (tree listing).devices) :
    (e = (text "iio:device0", device "ams@ffa50000" files) ∧ matched ams e.2 = .ok (some (text "axi/ams@ffa50000"))) ∨
    (e = (text "iio:device1", device "ams@ffa60000" listing) ∧ matched ams e.2 = .ok (some (text "axi/ams@ffa60000"))) := by
  have hin : e ∈ (tree listing).entries := (List.mem_filter.mp he).1
  simp only [tree, List.mem_cons, List.not_mem_nil, or_false] at hin
  rcases hin with rfl | rfl
  · exact .inl ⟨rfl, rfl⟩
  · exact .inr ⟨rfl, rfl⟩

theorem tree_regular {listing : Except Text (List Text)}
    (hbound : ∀ names, listing = .ok names → (channels names).length ≤ 256) : Regular ams (tree listing) := by
  refine ⟨(List.length_filter_le _ _).trans (by simp [tree]), ?_, ?_, ?_⟩
  · intro e he _
    rcases tree_matched he with ⟨rfl, -⟩ | ⟨rfl, -⟩
    · exact ⟨true, rfl, ⟨_, rfl⟩, _, rfl⟩
    · exact ⟨true, rfl, ⟨_, rfl⟩, _, rfl⟩
  · intro e he identity names _ hl
    rcases tree_matched he with ⟨rfl, -⟩ | ⟨rfl, -⟩
    · cases hl
      decide
    · exact hbound names hl
  · intro e he e' he' identity hm hm'
    rcases tree_matched he with ⟨rfl, h⟩ | ⟨rfl, h⟩
    · rcases tree_matched he' with ⟨rfl, h'⟩ | ⟨rfl, h'⟩
      · rfl
      · rw [h] at hm
        rw [h', ← hm] at hm'
        exact absurd hm' (by decide)
    · rcases tree_matched he' with ⟨rfl, h'⟩ | ⟨rfl, h'⟩
      · rw [h] at hm
        rw [h', ← hm] at hm'
        exact absurd hm' (by decide)
      · rfl

end Sample
open Sample

/-- Two devices that can be listed. -/
theorem snapshot_renumbering_listed :
    (∀ t', Renumbered (tree files) t' →
      readSnapshot wholeNumbers ams (.ok t'.entries) = readSnapshot wholeNumbers ams (.ok (tree files).entries)) ∧
    (readSnapshot wholeNumbers ams (.ok (tree files).entries)).readings.Pairwise fun a b => a.id < b.id := by
  have hregular : Regular ams (tree files) := by
    apply tree_regular
    intro names hl
    cases hl
    decide
  apply (snapshot_renumbering_iff wholeNumbers ams (tree files) hregular).mpr
  refine .inr (.inl ?_)
  intro e he identity _
  rcases tree_matched he with ⟨rfl, -⟩ | ⟨rfl, -⟩
  · exact ⟨_, rfl⟩
  · exact ⟨_, rfl⟩

/-- With the second one unlistable, exchanging the two numbers loses the rail of the first. -/
theorem snapshot_depends_on_numbers :
    Regular ams (tree (.error (text "Input/output error"))) ∧
    Renumbered (tree (.error (text "Input/output error")))
      ((tree (.error (text "Input/output error"))).exchange (text "iio:device0") (text "iio:device1")) ∧
    ((readSnapshot wholeNumbers ams (.ok (tree (.error (text "Input/output error"))).entries)).readings.map
      Reading.id) = [text "axi/ams@ffa50000/in_voltage6"] ∧
    readSnapshot wholeNumbers ams (.ok ((tree (.error (text "Input/output error"))).exchange
      (text "iio:device0") (text "iio:device1")).entries) = interrupted [] := by
  refine ⟨?_, exchange_renumbered (by decide) (by decide), by decide, by decide⟩
  apply tree_regular
  intro names hl
  cases hl

end Monutchee.Sysmon
