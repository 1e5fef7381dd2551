import Monutchee.System.Clock

/-!
# Names of unit instances (ptp.cpp:82-89)

The instance of a template for a port, and what systemd reads back from its name. Two instances with
one name are instances of one template for one port.
-/

namespace Monutchee.System.Native
open Lib Validation

/-! ### What systemd reads -/

/-- The bytes of an instance: a dash is a slash, and two hexadecimal digits after `\x` are a byte. -/
def unescape : Bytes → Option Bytes
  | [] => some []
  | c :: rest =>
    if c = 45 then (unescape rest).map (47 :: ·)
    else if c = 92 then
      match rest with
      | x :: high :: low :: rest =>
        if x = 120 then
          match digitValue 16 high, digitValue 16 low with
          | some h, some l => (unescape rest).map (UInt8.ofNat (16 * h + l) :: ·)
          | _, _ => none
        else none
      | _ => none
    else (unescape rest).map (c :: ·)

/-- The text between the last `@` and the eight bytes of `.service`. -/
def instanceText (unit : Bytes) : Bytes :=
  let tail := (unit.reverse.takeWhile (· != 64)).reverse
  tail.take (tail.length - 8)

/-! ### Escaping -/

/-- The bytes of an interface name are neither a backslash nor an at sign. -/
theorem interfaceName_free {name : Bytes} (h : validInterfaceName name = true) : 92 ∉ name ∧ 64 ∉ name := by
  unfold validInterfaceName at h
  simp only [Bool.and_eq_true, List.all_eq_true] at h
  constructor
  · intro hc
    have hbad := h.2 92 hc
    revert hbad
    decide
  · intro hc
    have hbad := h.2 64 hc
    revert hbad
    decide

theorem escape_cons (c : UInt8) (name : Bytes) :
    escape (c :: name) = (if c = 45 then [92, 120, 50, 100] else [c]) ++ escape name := by
  have hdash : ascii "\\x2d" = [92, 120, 50, 100] := by decide
  unfold escape
  rw [List.flatMap_cons, hdash]

theorem unescape_plain {c : UInt8} {rest : Bytes} (hdash : c ≠ 45) (hslash : c ≠ 92) :
    unescape (c :: rest) = (unescape rest).map (c :: ·) := by
  rw [unescape.eq_def]
  dsimp only
  rw [if_neg hdash, if_neg hslash]

theorem unescape_dash (rest : Bytes) :
    unescape (92 :: 120 :: 50 :: 100 :: rest) = (unescape rest).map (45 :: ·) := by
  have hhigh : digitValue 16 50 = some 2 := by decide
  have hlow : digitValue 16 100 = some 13 := by decide
  rw [unescape.eq_def]
  simp [hhigh, hlow]

theorem unescape_escape {name : Bytes} (h : 92 ∉ name) : unescape (escape name) = some name := by
  induction name with
  | nil => rfl
  | cons c name ih =>
    have hname := ih fun hc => h (List.mem_cons_of_mem c hc)
    rw [escape_cons]
    by_cases hdash : c = 45
    · rw [if_pos hdash, hdash]
      show unescape (92 :: 120 :: 50 :: 100 :: escape name) = _
      rw [unescape_dash, hname]
      rfl
    · have hslash : c ≠ 92 := fun hc => h (hc ▸ List.mem_cons_self ..)
      rw [if_neg hdash]
      show unescape (c :: escape name) = _
      rw [unescape_plain hdash hslash, hname]
      rfl

theorem escape_free {name : Bytes} (h : 64 ∉ name) : 64 ∉ escape name := by
  induction name with
  | nil => exact List.not_mem_nil
  | cons c name ih =>
    rw [escape_cons, List.mem_append, not_or]
    refine ⟨?_, ih fun hc => h (List.mem_cons_of_mem c hc)⟩
    by_cases hdash : c = 45
    · rw [if_pos hdash]
      decide
    · rw [if_neg hdash, List.mem_singleton]
      exact fun hc => h (hc ▸ List.mem_cons_self ..)

/-! ### The instance of a template -/

theorem instanceText_at {base text : Bytes} (h : 64 ∉ text) :
    instanceText (base ++ 64 :: (text ++ ascii ".service")) = text := by
  have hservice : 64 ∉ ascii ".service" := by decide
  have htail : ((base ++ 64 :: (text ++ ascii ".service")).reverse.takeWhile (· != 64)).reverse = text ++ ascii ".service" := by
    rw [List.reverse_append, List.reverse_cons, List.append_assoc, List.takeWhile_append_of_pos]
    · simp
    · intro c hc
      rw [List.mem_reverse, List.mem_append] at hc
      rw [bne_iff_ne]
      rintro rfl
      cases hc with
      | inl htext => exact h htext
      | inr hend => exact hservice hend
  unfold instanceText
  have hlength : (ascii ".service").length = 8 := by decide
  rw [htail]
  show (text ++ ascii ".service").take ((text ++ ascii ".service").length - 8) = text
  rw [List.length_append, hlength, Nat.add_sub_cancel, List.take_left]

/-- The name of an instance: the front part of the template, the sign, the port, the end. -/
theorem unitInstance_shape {template name unit : Bytes} (h : unitInstance template name = .ok unit) :
    validInterfaceName name = true ∧ ∃ base, template = base ++ ascii "@.service" ∧
      unit = base ++ 64 :: (escape name ++ ascii ".service") := by
  unfold unitInstance at h
  rw [then_ok, check_ok, Bool.and_eq_true, List.isSuffixOf_iff_suffix] at h
  obtain ⟨⟨hname, base, rfl⟩, hunit⟩ := h
  refine ⟨hname, base, rfl, ?_⟩
  injection hunit with hunit
  rw [← hunit]
  have hmark : ascii "@.service" = [64] ++ ascii ".service" := by decide
  have hlength : (base ++ ascii "@.service").length - 8 = (base ++ [64]).length := by
    rw [List.length_append, List.length_append]
    rfl
  rw [hlength, hmark, ← List.append_assoc, List.take_left]
  simp

theorem unitInstance_valid {template name : Bytes} (hname : validInterfaceName name = true)
    (htemplate : (ascii "@.service").isSuffixOf template = true) : ∃ unit, unitInstance template name = .ok unit := by
  unfold unitInstance
  rw [hname, htemplate]
  exact ⟨_, rfl⟩

theorem unitInstance_read {template name unit : Bytes} (h : unitInstance template name = .ok unit) :
    unescape (instanceText unit) = some name := by
  obtain ⟨hname, base, -, rfl⟩ := unitInstance_shape h
  obtain ⟨hslash, hsign⟩ := interfaceName_free hname
  rw [instanceText_at (escape_free hsign), unescape_escape hslash]

theorem unitInstance_injective {template template' name name' unit : Bytes} (h : unitInstance template name = .ok unit)
    (h' : unitInstance template' name' = .ok unit) : template = template' ∧ name = name' := by
  have hname : name = name' := Option.some.inj ((unitInstance_read h).symm.trans (unitInstance_read h'))
  refine ⟨?_, hname⟩
  obtain ⟨-, base, rfl, hunit⟩ := unitInstance_shape h
  obtain ⟨-, base', rfl, hunit'⟩ := unitInstance_shape h'
  rw [hunit, hname] at hunit'
  rw [List.append_cancel_right hunit']

/-- Each valid pair has an instance, of which systemd reads back the port, and no other pair has it.
With PTP the instances of every port but the selected one are stopped, and none of them is started. -/
theorem unitInstance_faithful :
    (∀ template name, (ascii "@.service").isSuffixOf template = true → validInterfaceName name = true →
      ∃ unit, unitInstance template name = .ok unit ∧ unescape (instanceText unit) = some name ∧
        ∀ template' name', unitInstance template' name' = .ok unit → template' = template ∧ name' = name) ∧
      ∀ p t r, clockUnits p t = .ok r → t.synchronization = ascii "ptp" → ∀ port ∈ p.interfaceNames,
        port ≠ t.ptpInterface → ∀ template ∈ p.ptpUnitTemplates, ∀ unit, unitInstance template port = .ok unit →
          unit ∈ r.stop ∧ unit ∉ r.start := by
  constructor
  · intro template name htemplate hname
    obtain ⟨unit, hunit⟩ := unitInstance_valid hname htemplate
    exact ⟨unit, hunit, unitInstance_read hunit, fun _ _ h' => unitInstance_injective h' hunit⟩
  · intro p t r hr hmode port hport hne template htemplate unit hunit
    have hspec := clockUnits_spec hr
    have hstart : unit ∉ r.start := by
      rw [hspec.start, IsSelected, hmode]
      rintro (⟨hntp, -⟩ | ⟨hirig, -⟩ | ⟨-, template', -, hselected⟩)
      · revert hntp
        decide
      · revert hirig
        decide
      · exact hne (unitInstance_injective hunit hselected).2
    refine ⟨?_, hstart⟩
    rw [hspec.stop]
    exact .inl ⟨.inr (.inl ⟨port, hport, template, htemplate, hunit⟩), .inr hstart⟩

end Monutchee.System.Native
