import Monutchee.Sysmon.Renumbering

/-!
# A failing device and the others (sysmon.cpp:152-212)

Channels fail for themselves, and so do devices without a readable name. Anything else that fails
in a device leaves the loop over all devices: those with an earlier name have been sampled, those
with a later one are missing.
-/

namespace Monutchee.Sysmon
open Monutchee.Lib

variable {α : Type} {num : Double α} {sel : Selector} {t t' : Tree} {e : Text × Device}

/-- The tree without the entry of this name. -/
def Tree.without (t : Tree) (name : Text) : Tree where
  entries := t.entries.filter fun e => e.1 ≠ name
  nodup := t.nodup.sublist (List.filter_sublist.map Prod.fst)

/-- The snapshot has the reading because of the device: without the device it has it less often. -/
def Shows [DecidableEq α] (num : Double α) (sel : Selector) (t : Tree) (e : Text × Device) (r : Reading α) : Prop :=
  (readSnapshot num sel (.ok (t.without e.1).entries)).readings.count r <
    (readSnapshot num sel (.ok t.entries)).readings.count r

/-- A device with an earlier name fails. -/
def Hidden (num : Double α) (sel : Selector) (t : Tree) (e : Text × Device) : Prop :=
  ∃ d ∈ t.devices, d.1 < e.1 ∧ ¬ Healthy num sel d.2

theorem mem_without {name : Text} {d : Text × Device} : d ∈ (t.without name).devices ↔ d ∈ t.devices ∧ d.1 ≠ name := by
  unfold Tree.devices Tree.without
  simp only [List.mem_filter, decide_eq_true_eq]
  constructor
  · rintro ⟨⟨hd, hne⟩, hname⟩
    exact ⟨⟨hd, hname⟩, hne⟩
  · rintro ⟨⟨hd, hname⟩, hne⟩
    exact ⟨⟨hd, hne⟩, hname⟩

theorem without_few {name : Text} (h : t.devices.length ≤ 64) : (t.without name).devices.length ≤ 64 := by
  have hsub : (t.without name).devices.Sublist t.devices := List.Sublist.filter _ List.filter_sublist
  exact hsub.length_le.trans h

/-- The order around a device, and the order without it. -/
theorem order_split (he : e ∈ t.devices) : ∃ before after, t.order = before ++ e :: after ∧
    (t.without e.1).order = before ++ after ∧ (∀ d ∈ before, d.1 < e.1) ∧ ∀ d ∈ after, e.1 < d.1 := by
  obtain ⟨before, after, horder⟩ := List.append_of_mem (Tree.mem_order.mpr he)
  have hsorted := t.order_sorted
  rw [horder, List.pairwise_append, List.pairwise_cons] at hsorted
  obtain ⟨hbefore, ⟨hafter, hrest⟩, hacross⟩ := hsorted
  have hless : ∀ d ∈ before, d.1 < e.1 := fun d hd => hacross d hd e (List.mem_cons_self ..)
  refine ⟨before, after, horder, ?_, hless, hafter⟩
  apply sorted_ext (t.without e.1).order_sorted
  · rw [List.pairwise_append]
    exact ⟨hbefore, hrest, fun a ha b hb => hacross a ha b (List.mem_cons_of_mem _ hb)⟩
  · intro d
    rw [Tree.mem_order, mem_without, ← Tree.mem_order, horder, List.mem_append, List.mem_append, List.mem_cons]
    constructor
    · rintro ⟨hd | rfl | hd, hne⟩
      · exact .inl hd
      · exact absurd rfl hne
      · exact .inr hd
    · rintro (hd | hd)
      · exact ⟨.inl hd, ne_of_lt (hless d hd)⟩
      · exact ⟨.inr (.inr hd), ne_of_gt (hafter d hd)⟩

/-- A device is seen through the devices with earlier names. -/
theorem shows_iff [DecidableEq α] (hsel : sel.compatible = text "xlnx,zynqmp-ams") (hcount : t.devices.length ≤ 64)
    (he : e ∈ t.devices) (r : Reading α) :
    Shows num sel t e r ↔ ¬ Hidden num sel t e ∧ r ∈ readingsOf num sel e.2 := by
  obtain ⟨before, after, horder, hwithout, hbefore, hafter⟩ := order_split he
  have hall := (@snapshot_readings α num sel t hsel hcount).count_eq r
  have hothers := (@snapshot_readings α num sel (t.without e.1) hsel (without_few hcount)).count_eq r
  have hin : ∀ d, d ∈ t.devices ↔ d ∈ before ∨ d = e ∨ d ∈ after := by
    intro d
    rw [← Tree.mem_order, horder, List.mem_append, List.mem_cons]
  have hhidden : Hidden num sel t e ↔ ¬ ∀ d ∈ before, Healthy num sel d.2 := by
    constructor
    · rintro ⟨d, hd, hlt, hfails⟩ hhealthy
      rcases (hin d).mp hd with hd | rfl | hd
      · exact hfails (hhealthy d hd)
      · exact lt_irrefl _ hlt
      · exact lt_asymm hlt (hafter d hd)
    · intro hnot
      simp only [not_forall] at hnot
      obtain ⟨d, hd, hfails⟩ := hnot
      exact ⟨d, (hin d).mpr (.inl hd), hbefore d hd, hfails⟩
  unfold Shows
  rw [hall, hothers, horder, hwithout, hhidden, not_not]
  by_cases hhealthy : ∀ d ∈ before, Healthy num sel d.2
  · rw [leading_append num sel hhealthy, leading_append num sel hhealthy, List.count_append, List.count_append]
    by_cases hown : Healthy num sel e.2
    · have hleading := @leading_append α num sel [e] (by simpa using hown) after
      rw [List.singleton_append, List.flatMap_singleton] at hleading
      rw [hleading, List.count_append, ← List.count_pos_iff]
      constructor
      · intro h
        exact ⟨hhealthy, by omega⟩
      · rintro ⟨-, h⟩
        omega
    · have hnone : readingsOf num sel e.2 = [] := by
        unfold readingsOf
        cases hc : contribution num sel e.2 with
        | error what => rfl
        | ok rs => exact absurd ⟨rs, hc⟩ hown
      rw [leading_failed hown, List.count_nil, hnone]
      constructor
      · intro h
        omega
      · rintro ⟨-, h⟩
        cases h
  · rcases first_failure num sel before with hgood | ⟨front, d, back, rfl, hfront, hfails⟩
    · exact absurd hgood hhealthy
    · rw [List.append_assoc, List.append_assoc, List.cons_append, List.cons_append,
        leading_append num sel hfront, leading_append num sel hfront, leading_failed hfails, leading_failed hfails]
      constructor
      · intro h
        omega
      · rintro ⟨h, -⟩
        exact absurd h hhealthy

/-- However the other entries differ, the second snapshot has every reading that the first has of a device,
exactly if the device has nothing to show, a device with an earlier name fails in the first tree, or none
fails in the second. -/
theorem device_isolation_iff [DecidableEq α] (num : Double α) (sel : Selector) (t t' : Tree) (e : Text × Device)
    (hfew : t.devices.length ≤ 64) (hfew' : t'.devices.length ≤ 64) (he : e ∈ t.devices) (he' : e ∈ t'.devices)
    (identity : Text) (names : List Text) (hmatched : matched sel e.2 = .ok (some identity))
    (hlisted : e.2.listing = .ok names) :
    (∀ r, Shows num sel t e r → Shows num sel t' e r) ↔
      sel.compatible ≠ text "xlnx,zynqmp-ams" ∨ channels names = [] ∨ 256 < (channels names).length ∨
        Hidden num sel t e ∨ ¬ Hidden num sel t' e := by
  by_cases hsel : sel.compatible = text "xlnx,zynqmp-ams"
  · have hshows := fun r => @shows_iff α num sel t e _ hsel hfew he r
    have hshows' := fun r => @shows_iff α num sel t' e _ hsel hfew' he' r
    constructor
    · intro hkept
      by_contra hnot
      simp only [not_or, not_not, not_lt] at hnot
      obtain ⟨-, hsome, hbound, hseen, hhidden⟩ := hnot
      have hreadings : readingsOf num sel e.2 = (channels names).map (sampleChannel num e.2 identity) := by
        unfold readingsOf
        rw [readingsOf_eq hmatched hlisted hbound]
        rfl
      obtain ⟨c, hc⟩ := List.exists_mem_of_ne_nil _ hsome
      have hin : sampleChannel num e.2 identity c ∈ readingsOf num sel e.2 := by
        rw [hreadings]
        exact List.mem_map_of_mem hc
      exact ((hshows' _).mp (hkept _ ((hshows _).mpr ⟨hseen, hin⟩))).1 hhidden
    · intro h r hr
      obtain ⟨hseen, hin⟩ := (hshows r).mp hr
      rcases h with h | h | h | h | h
      · exact absurd hsel h
      · rw [nothing_read hlisted (.inl h)] at hin
        cases hin
      · rw [nothing_read hlisted (.inr h)] at hin
        cases hin
      · exact absurd h hseen
      · exact (hshows' r).mpr ⟨h, hin⟩
  · refine ⟨fun _ => .inl hsel, fun _ r hr => ?_⟩
    unfold Shows at hr
    rw [snapshot_unsupported hsel, snapshot_unsupported hsel] at hr
    exact absurd hr (lt_irrefl _)

/-! ### A broken device before a sound one and behind it -/

namespace Sample

/-- The device of another number. -/
def rail : Text × Device := (text "iio:device1", device "ams@ffa50000" files)

/-- It is an AMS device, its node has no readable property. -/
def broken : Device := { device "ams@ffa60000" files with ofNode := ⟨.unreadable, .error (text "Permission denied")⟩ }

def alone : Tree where
  entries := [rail]
  nodup := List.nodup_singleton _

def beside (name : Text) (h : name ≠ text "iio:device1") : Tree where
  entries := [(name, broken), rail]
  nodup := by
    show [name, text "iio:device1"].Nodup
    simp [h]

end Sample
open Sample

/-- The reading of the sound device is there when it stands alone. -/
theorem alone_shows :
    Shows wholeNumbers ams alone rail (sampleChannel wholeNumbers rail.2 (text "axi/ams@ffa50000") (text "in_voltage6", .voltage)) := by
  apply (shows_iff rfl (by decide) (List.mem_cons_self ..) _).mpr
  refine ⟨?_, List.mem_cons_self ..⟩
  rintro ⟨d, hd, hlt, -⟩
  rw [List.mem_singleton.mp (List.mem_filter.mp hd).1] at hlt
  exact lt_irrefl _ hlt

/-- And with the broken device behind it. -/
theorem device_isolation_behind :
    Shows wholeNumbers ams (beside (text "iio:device2") (by decide)) rail
      (sampleChannel wholeNumbers rail.2 (text "axi/ams@ffa50000") (text "in_voltage6", .voltage)) := by
  apply (device_isolation_iff wholeNumbers ams alone (beside (text "iio:device2") (by decide)) rail (by decide)
    (by decide) (List.mem_cons_self ..) (List.mem_cons_of_mem _ (List.mem_cons_self ..))
    (text "axi/ams@ffa50000") [text "name", text "of_node", text "in_voltage6_raw", text "in_voltage6_scale"]
    rfl rfl).mpr
  · refine .inr (.inr (.inr (.inr ?_)))
    rintro ⟨d, hd, hlt, -⟩
    have hin : d ∈ (beside (text "iio:device2") (by decide)).entries := (List.mem_filter.mp hd).1
    simp only [beside, List.mem_cons, List.not_mem_nil, or_false] at hin
    rcases hin with rfl | rfl
    · exact absurd hlt (by decide)
    · exact lt_irrefl _ hlt
  · exact alone_shows

/-- Before it: the reading of the sound device is gone. -/
theorem device_hidden_by_broken :
    (∃ r, Shows wholeNumbers ams alone rail r ∧
      ¬ Shows wholeNumbers ams (beside (text "iio:device0") (by decide)) rail r) ∧
    (readSnapshot wholeNumbers ams (.ok alone.entries)).readings.map Reading.id =
      [text "axi/ams@ffa50000/in_voltage6"] ∧
    readSnapshot wholeNumbers ams (.ok (beside (text "iio:device0") (by decide)).entries) = interrupted [] := by
  refine ⟨⟨sampleChannel wholeNumbers rail.2 (text "axi/ams@ffa50000") (text "in_voltage6", .voltage), ?_, ?_⟩,
    by decide, by decide⟩
  · exact alone_shows
  · intro h
    have hseen := (shows_iff rfl (by decide) (List.mem_cons_of_mem _ (List.mem_cons_self ..)) _).mp h
    exact hseen.1 ⟨(text "iio:device0", broken), List.mem_cons_self .., by decide, by decide⟩

end Monutchee.Sysmon
