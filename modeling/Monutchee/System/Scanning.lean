import Mathlib.Data.List.Induction
import Mathlib.Data.List.TakeWhile
import Mathlib.Tactic.Ring
import Monutchee.System.Daemon

/-!
# What the scanners read (validation.cpp:15-93)

`splitAt` finds the first separator, `fromChars` reads the longest run of digits, and
`octet` reads a decimal number of at most 255. Each is described by the texts it accepts:
a numeral is a text of digits without a leading zero, and `decimal` writes the one numeral
of a number.
-/

namespace Monutchee.System
open Validation

/-! ### The first separator -/

theorem splitAt_text {c : UInt8} {text part : Bytes} {after : Option Bytes}
    (h : splitAt c text = (part, after)) :
    text = part ++ after.elim [] (c :: ·) := by
  induction text generalizing part with
  | nil =>
    rw [splitAt] at h
    injection h with hp ha
    subst hp ha
    rfl
  | cons b bs ih =>
    rw [splitAt] at h
    by_cases hb : b = c
    · rw [if_pos hb] at h
      injection h with hp ha
      subst hp ha hb
      rfl
    · rw [if_neg hb] at h
      rcases hs : splitAt c bs with ⟨part', after'⟩
      rw [hs] at h
      injection h with hp ha
      subst hp ha
      rw [List.cons_append, ← ih hs]

theorem splitAt_part (c : UInt8) (text : Bytes) : c ∉ (splitAt c text).1 := by
  induction text with
  | nil => simp [splitAt]
  | cons b bs ih =>
    rw [splitAt]
    by_cases hb : b = c
    · simp [hb]
    · rw [if_neg hb]
      show c ∉ b :: (splitAt c bs).1
      simp [ih, Ne.symm hb]

theorem splitAt_free {c : UInt8} {text : Bytes} (h : c ∉ text) : splitAt c text = (text, none) := by
  induction text with
  | nil => rfl
  | cons b bs ih =>
    have hb : b ≠ c := fun hb => h (by rw [hb]; exact List.mem_cons_self ..)
    have hbs := ih fun hc => h (List.mem_cons_of_mem _ hc)
    rw [splitAt, if_neg hb, hbs]

theorem splitAt_append {c : UInt8} {part rest : Bytes} (h : c ∉ part) :
    splitAt c (part ++ c :: rest) = (part, some rest) := by
  induction part with
  | nil => simp [splitAt]
  | cons b bs ih =>
    have hb : b ≠ c := fun hb => h (by rw [hb]; exact List.mem_cons_self ..)
    have hbs := ih fun hc => h (List.mem_cons_of_mem _ hc)
    rw [List.cons_append, splitAt, if_neg hb, hbs]

/-! ### Digits -/

theorem digitValue_range {base : ℕ} {c : UInt8} (h : (digitValue base c).isSome = true) :
    48 ≤ c.toNat := by
  unfold digitValue at h
  have h48 : (48 : UInt8).toNat = 48 := rfl
  have h65 : (65 : UInt8).toNat = 65 := rfl
  have h97 : (97 : UInt8).toNat = 97 := rfl
  by_cases hd : isDigit c = true
  · unfold isDigit at hd
    simp only [Bool.and_eq_true, decide_eq_true_eq, UInt8.le_iff_toNat_le] at hd
    omega
  · by_cases hl : (97 ≤ c && c ≤ 102) = true
    · simp only [Bool.and_eq_true, decide_eq_true_eq, UInt8.le_iff_toNat_le] at hl
      omega
    · by_cases hu : (65 ≤ c && c ≤ 70) = true
      · simp only [Bool.and_eq_true, decide_eq_true_eq, UInt8.le_iff_toNat_le] at hu
        omega
      · simp [hd, hl, hu] at h

/-- A statement about every byte, checked byte by byte. -/
theorem forall_byte {P : UInt8 → Prop} (h : ∀ n < 256, P (UInt8.ofNat n)) (c : UInt8) : P c := by
  have hc := h c.toNat c.toNat_lt
  simpa using hc

theorem digitValue_decimal (c : UInt8) :
    digitValue 10 c = if isDigit c then some (c.toNat - 48) else none := by
  revert c
  apply forall_byte
  decide +kernel

theorem isDigit_iff {c : UInt8} : isDigit c = true ↔ 48 ≤ c.toNat ∧ c.toNat ≤ 57 := by
  have h48 : (48 : UInt8).toNat = 48 := rfl
  have h57 : (57 : UInt8).toNat = 57 := rfl
  simp only [isDigit, Bool.and_eq_true, decide_eq_true_eq, UInt8.le_iff_toNat_le]
  omega

/-! ### Numbers -/

/-- The value of a text of digits. -/
def valueFrom (base : ℕ) (n : ℕ) (text : Bytes) : ℕ :=
  text.foldl (fun n c => n * base + (digitValue base c).getD 0) n

/-- A number that is the whole text. -/
theorem fromChars_iff {base n : ℕ} {text : Bytes} :
    fromChars base text = some (n, []) ↔
      text ≠ [] ∧ (∀ c ∈ text, (digitValue base c).isSome = true) ∧ n = valueFrom base 0 text ∧
        n < 2^32 := by
  have hall : (∀ c ∈ text, (digitValue base c).isSome = true) →
      text.takeWhile (fun c => (digitValue base c).isSome) = text := List.takeWhile_eq_self_iff.mpr
  unfold fromChars
  dsimp only
  constructor
  · intro h
    split at h
    · simp at h
    · rename_i hbad
      injection h with h
      injection h with hn hd
      have hlen := List.drop_eq_nil_iff.mp hd
      have hpre := List.takeWhile_prefix (fun c => (digitValue base c).isSome) (l := text)
      have htext := hpre.eq_of_length_le hlen
      rw [htext] at hn hbad
      simp only [Bool.or_eq_true, List.isEmpty_iff, decide_eq_true_eq, not_or, Nat.not_le] at hbad
      have hvalue : n = valueFrom base 0 text := hn.symm
      refine ⟨hbad.1, List.takeWhile_eq_self_iff.mp htext, hvalue, ?_⟩
      rw [hvalue]
      exact hbad.2
  · rintro ⟨hne, hdigits, hn, hlt⟩
    rw [hall hdigits]
    have hvalue : text.foldl (fun n c => n * base + (digitValue base c).getD 0) 0 = n := hn.symm
    rw [hvalue, if_neg]
    · simp
    · simp only [Bool.or_eq_true, List.isEmpty_iff, decide_eq_true_eq, not_or, Nat.not_le]
      exact ⟨hne, hlt⟩

theorem fromChars_whole {base n : ℕ} {text : Bytes} (h : fromChars base text = some (n, [])) :
    (∀ c ∈ text, (digitValue base c).isSome = true) ∧
      n = text.foldl (fun n c => n * base + (digitValue base c).getD 0) 0 := by
  obtain ⟨-, hdigits, hn, -⟩ := fromChars_iff.mp h
  exact ⟨hdigits, hn⟩

theorem foldl_decimal (text : Bytes) (a : ℕ) :
    a * 10 ^ text.length ≤ text.foldl (fun n c => n * 10 + (digitValue 10 c).getD 0) a := by
  induction text generalizing a with
  | nil => simp
  | cons c cs ih =>
    have hstep := ih (a * 10 + (digitValue 10 c).getD 0)
    rw [List.length_cons, List.foldl_cons, Nat.pow_succ]
    calc a * (10 ^ cs.length * 10) = a * 10 * 10 ^ cs.length := by ring
      _ ≤ (a * 10 + (digitValue 10 c).getD 0) * 10 ^ cs.length :=
        Nat.mul_le_mul_right _ (Nat.le_add_right _ _)
      _ ≤ _ := hstep

/-- A text of hexadecimal digits stays below the power of its length. -/
theorem valueFrom_lt {base : ℕ} (hb : 0 < base) (text : Bytes) (a : ℕ) :
    valueFrom base a text < (a + 1) * base ^ text.length := by
  induction text generalizing a with
  | nil => simp [valueFrom]
  | cons c cs ih =>
    have hd : (digitValue base c).getD 0 < base := by
      cases hv : digitValue base c with
      | none => exact hb
      | some v =>
        unfold digitValue at hv
        have := (Option.filter_eq_some_iff.mp hv).2
        simpa using this
    have hstep := ih (a * base + (digitValue base c).getD 0)
    rw [List.length_cons, Nat.pow_succ]
    calc valueFrom base a (c :: cs) < (a * base + (digitValue base c).getD 0 + 1) * base ^ cs.length :=
        hstep
      _ ≤ (a + 1) * base * base ^ cs.length := Nat.mul_le_mul_right _ (by rw [Nat.add_mul]; omega)
      _ = (a + 1) * (base ^ cs.length * base) := by ring

/-- A numeral: digits, and a leading zero only in "0". -/
structure IsNumeral (text : Bytes) : Prop where
  nonempty : text ≠ []
  digits : ∀ c ∈ text, isDigit c = true
  canonical : text.length = 1 ∨ text.head? ≠ some 48

theorem valueFrom_concat (n : ℕ) (text : Bytes) {c : UInt8} (hc : isDigit c = true) :
    valueFrom 10 n (text ++ [c]) = valueFrom 10 n text * 10 + (c.toNat - 48) := by
  simp [valueFrom, digitValue_decimal, hc]

theorem digit_of {n : ℕ} (h : n < 10) :
    isDigit (UInt8.ofNat (48 + n)) = true ∧ (UInt8.ofNat (48 + n)).toNat = 48 + n := by
  have hto : (UInt8.ofNat (48 + n)).toNat = 48 + n := by
    rw [UInt8.toNat_ofNat']
    omega
  refine ⟨?_, hto⟩
  rw [isDigit_iff, hto]
  omega

/-- A number of one digit. -/
theorem digit_numeral {n : ℕ} (h : n < 10) :
    IsNumeral [UInt8.ofNat (48 + n)] ∧ valueFrom 10 0 [UInt8.ofNat (48 + n)] = n ∧
      (n ≠ 0 → [UInt8.ofNat (48 + n)].head? ≠ some 48) := by
  obtain ⟨hd, hto⟩ := digit_of h
  refine ⟨⟨by simp, ?_, .inl rfl⟩, ?_, ?_⟩
  · intro c hc
    rw [List.mem_singleton.mp hc]
    exact hd
  · have hv := valueFrom_concat 0 [] hd
    rw [hto] at hv
    have hempty : valueFrom 10 0 [] = 0 := rfl
    rw [hempty] at hv
    calc valueFrom 10 0 [UInt8.ofNat (48 + n)] = 0 * 10 + (48 + n - 48) := hv
      _ = n := by omega
  · intro hne he
    have h48 : (UInt8.ofNat (48 + n)).toNat = 48 := by
      rw [Option.some.inj he]
      rfl
    omega

/-- The digits that decimalBefore puts before a text. -/
theorem decimalBefore_numeral (digits n : ℕ) (text : Bytes) (hn : n < 10 ^ (digits + 1)) :
    ∃ t, decimalBefore (digits + 1) n text = t ++ text ∧ IsNumeral t ∧ valueFrom 10 0 t = n ∧
      (n ≠ 0 → t.head? ≠ some 48) := by
  induction digits generalizing n text with
  | zero =>
    have hlt : n < 10 := by simpa using hn
    refine ⟨[UInt8.ofNat (48 + n)], ?_, digit_numeral hlt⟩
    rw [decimalBefore, Nat.mod_eq_of_lt hlt, if_pos (Nat.div_eq_of_lt hlt)]
    rfl
  | succ digits ih =>
    rw [decimalBefore]
    by_cases hz : n / 10 = 0
    · have hlt : n < 10 := by omega
      refine ⟨[UInt8.ofNat (48 + n)], ?_, digit_numeral hlt⟩
      rw [Nat.mod_eq_of_lt hlt, if_pos hz]
      rfl
    · have hlt : n / 10 < 10 ^ (digits + 1) := by
        rw [Nat.pow_succ] at hn
        omega
      obtain ⟨hd, hto⟩ := digit_of (Nat.mod_lt n (by decide : 0 < 10))
      obtain ⟨t, ht, hnum, hvalue, hhead⟩ := ih (n / 10) (UInt8.ofNat (48 + n % 10) :: text) hlt
      have hfirst : (t ++ [UInt8.ofNat (48 + n % 10)]).head? = t.head? :=
        List.head?_append_of_ne_nil t hnum.nonempty
      refine ⟨t ++ [UInt8.ofNat (48 + n % 10)], ?_, ⟨by simp, ?_, .inr ?_⟩, ?_, ?_⟩
      · rw [if_neg hz, ht, List.append_assoc]
        rfl
      · intro c hc
        rcases List.mem_append.mp hc with hc | hc
        · exact hnum.digits c hc
        · rw [List.mem_singleton.mp hc]
          exact hd
      · rw [hfirst]
        exact hhead hz
      · rw [valueFrom_concat 0 t hd, hvalue, hto]
        omega
      · intro _
        rw [hfirst]
        exact hhead hz

theorem decimal_numeral {n : ℕ} (h : n < 10 ^ 20) :
    IsNumeral (decimal n) ∧ valueFrom 10 0 (decimal n) = n := by
  obtain ⟨t, ht, hnum, hvalue, -⟩ := decimalBefore_numeral 19 n [] h
  have : decimal n = t := by
    rw [decimal, ht, List.append_nil]
  rw [this]
  exact ⟨hnum, hvalue⟩

/-- A byte has three digits at most. -/
theorem decimal_short {n : ℕ} (h : n ≤ 255) : (decimal n).length ≤ 3 := by
  rw [decimal, decimalBefore]
  split
  · simp
  · rw [decimalBefore]
    split
    · simp
    · rw [decimalBefore, if_pos (by omega)]
      simp

/-- A numeral of more than one digit is a positive numeral with a digit behind it. -/
theorem numeral_init {text : Bytes} {c : UInt8} (h : IsNumeral (text ++ [c])) (hne : text ≠ []) :
    IsNumeral text ∧ valueFrom 10 0 text ≠ 0 := by
  have hhead : text.head? ≠ some 48 := by
    rcases h.canonical with hl | hh
    · have hpos := List.length_pos_iff.mpr hne
      rw [List.length_append, List.length_singleton] at hl
      omega
    · rwa [List.head?_append_of_ne_nil text hne] at hh
  refine ⟨⟨hne, fun b hb => h.digits b (List.mem_append_left _ hb), .inr hhead⟩, ?_⟩
  cases text with
  | nil => exact absurd rfl hne
  | cons b bs =>
    have hb := h.digits b (by simp)
    have hr := isDigit_iff.mp hb
    have hb48 : b.toNat ≠ 48 := fun he => hhead (congrArg some (UInt8.toNat_inj.mp he))
    have hfold := foldl_decimal bs (0 * 10 + (b.toNat - 48))
    have hpow : 0 < 10 ^ bs.length := Nat.pow_pos (by decide)
    have hmul : 0 < (0 * 10 + (b.toNat - 48)) * 10 ^ bs.length := Nat.mul_pos (by omega) hpow
    have hval : valueFrom 10 0 (b :: bs) =
        bs.foldl (fun n c => n * 10 + (digitValue 10 c).getD 0) (0 * 10 + (b.toNat - 48)) := by
      simp [valueFrom, digitValue_decimal, hb]
    omega

/-- Two numerals of one value are the same text. -/
theorem numeral_unique {s t : Bytes} (hs : IsNumeral s) (ht : IsNumeral t)
    (h : valueFrom 10 0 s = valueFrom 10 0 t) : s = t := by
  have hempty : valueFrom 10 0 [] = 0 := rfl
  induction s using List.reverseRecOn generalizing t with
  | nil => exact absurd rfl hs.nonempty
  | append_singleton s c ih =>
    rcases List.eq_nil_or_concat t with rfl | ⟨t', d, rfl⟩
    · exact absurd rfl ht.nonempty
    · rw [List.concat_eq_append] at ht h ⊢
      have hc := hs.digits c (by simp)
      have hd := ht.digits d (by simp)
      rw [valueFrom_concat 0 s hc, valueFrom_concat 0 t' hd] at h
      have hcr := isDigit_iff.mp hc
      have hdr := isDigit_iff.mp hd
      have hcd : c = d := UInt8.toNat_inj.mp (by omega)
      have hv : valueFrom 10 0 s = valueFrom 10 0 t' := by omega
      rw [hcd]
      congr 1
      by_cases hsn : s = []
      · by_contra hne
        have htn := numeral_init ht fun he => hne (hsn.trans he.symm)
        rw [← hv, hsn] at htn
        exact htn.2 hempty
      · by_cases htn : t' = []
        · have hpos := (numeral_init hs hsn).2
          rw [hv, htn] at hpos
          exact absurd hempty hpos
        · exact ih (numeral_init hs hsn).1 (numeral_init ht htn).1 hv

/-! ### Octets -/

/-- `octet` reads the numerals of the numbers up to 255. -/
theorem octet_iff {part : Bytes} {n : ℕ} : octet part = some n ↔ n ≤ 255 ∧ part = decimal n := by
  have hbig : (255 : ℕ) < 10 ^ 20 := by decide
  constructor
  · intro h
    unfold octet at h
    split at h
    · rename_i m hm
      split at h
      · rename_i hc
        injection h with h
        subst h
        obtain ⟨hne, hdigits, hvalue, -⟩ := fromChars_iff.mp hm
        simp only [Bool.and_eq_true, Bool.or_eq_true, beq_iff_eq, bne_iff_ne, decide_eq_true_eq] at hc
        have hnum : IsNumeral part := by
          refine ⟨hne, ?_, hc.1⟩
          intro c hcm
          have hd := hdigits c hcm
          rw [digitValue_decimal] at hd
          by_contra hf
          simp [hf] at hd
        obtain ⟨hdec, hval⟩ := decimal_numeral (n := m) (by omega)
        refine ⟨hc.2, numeral_unique hnum hdec ?_⟩
        rw [hval, ← hvalue]
      · simp at h
    · simp at h
  · rintro ⟨hle, rfl⟩
    obtain ⟨hnum, hval⟩ := decimal_numeral (n := n) (by omega)
    have hread : fromChars 10 (decimal n) = some (n, []) := by
      rw [fromChars_iff]
      refine ⟨hnum.nonempty, ?_, hval.symm, by omega⟩
      intro c hc
      rw [digitValue_decimal, if_pos (hnum.digits c hc)]
      rfl
    unfold octet
    rw [hread]
    dsimp only
    rw [if_pos]
    simp only [Bool.and_eq_true, Bool.or_eq_true, beq_iff_eq, bne_iff_ne, decide_eq_true_eq]
    exact ⟨hnum.canonical, hle⟩

end Monutchee.System
