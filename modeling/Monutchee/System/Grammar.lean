import Monutchee.System.Scanning

/-!
# The grammar of NTP servers (validation.cpp:36-93)

What `validNtpServer` accepts, as a grammar: an IPv6 address, a dotted IPv4 address or a host
name. A sequence is a list of parts joined by a separator that occurs in none of them, and a
scanner that splits at the first separator reads one part a round.
-/

namespace Monutchee.System
open Validation

/-! ### Sequences -/

/-- Parts with a separator between them. -/
def joined (c : UInt8) (parts : List Bytes) : Bytes := [c].intercalate parts

@[simp] theorem joined_nil (c : UInt8) : joined c [] = [] := rfl

@[simp] theorem joined_singleton (c : UInt8) (part : Bytes) : joined c [part] = part :=
  List.intercalate_singleton

theorem joined_cons {c : UInt8} {part : Bytes} {parts : List Bytes} (h : parts ≠ []) :
    joined c (part :: parts) = part ++ c :: joined c parts := by
  rw [joined, List.intercalate_cons_of_ne_nil h]
  simp [joined]

theorem joined_eq_nil {c : UInt8} {parts : List Bytes} (h : ∀ part ∈ parts, part ≠ []) :
    joined c parts = [] ↔ parts = [] := by
  cases parts with
  | nil => simp
  | cons part parts =>
    have hpart := h part (List.mem_cons_self ..)
    by_cases hp : parts = []
    · subst hp
      simpa using hpart
    · rw [joined_cons hp]
      simp

/-- The first round of a scanner. -/
theorem splitAt_joined {c : UInt8} {part : Bytes} {parts : List Bytes} (h : c ∉ part) :
    splitAt c (joined c (part :: parts)) =
      (part, if parts = [] then none else some (joined c parts)) := by
  by_cases hp : parts = []
  · subst hp
    rw [joined_singleton, splitAt_free h]
    simp
  · rw [joined_cons hp, splitAt_append h, if_neg hp]

/-! ### Dotted addresses -/

/-- Four decimal octets, from 0 to 255 and without leading zeros. -/
def DottedQuad (text : Bytes) : Prop :=
  ∃ w x y z : ℕ, w ≤ 255 ∧ x ≤ 255 ∧ y ≤ 255 ∧ z ≤ 255 ∧
    text = joined 46 [decimal w, decimal x, decimal y, decimal z]

theorem decimal_free {n : ℕ} (hn : n ≤ 255) {c : UInt8} (hc : isDigit c = false) :
    c ∉ decimal n := by
  intro hm
  have hd := (decimal_numeral (n := n) (by omega)).1.digits c hm
  rw [hc] at hd
  simp at hd

/-- The octets that a scanner of dotted addresses reads, so many of them. -/
def octets : ℕ → Bytes → Option (List ℕ)
  | 0, _ => some []
  | due + 1, text =>
    let (part, after) := splitAt 46 text
    (octet part).bind fun n =>
      if ((due == 0) == after.isNone) = true then (octets due (after.getD [])).map (n :: ·) else none

theorem decimalAddress_octets (due : ℕ) (text : Bytes) :
    decimalAddress due text = (octets due text).isSome := by
  induction due generalizing text with
  | zero => rfl
  | succ due ih =>
    rw [decimalAddress, octets]
    rcases splitAt 46 text with ⟨part, after⟩
    cases ho : octet part with
    | none => simp [ho]
    | some n =>
      by_cases hlast : ((due == 0) == after.isNone) = true
      · simp [ho, hlast, ih]
      · simp [ho, hlast]

theorem octets_cons {due : ℕ} {text : Bytes} {n : ℕ} {os : List ℕ} :
    octets (due + 1) text = some (n :: os) ↔
      ∃ after, splitAt 46 text = (decimal n, after) ∧ n ≤ 255 ∧
        ((due == 0) == after.isNone) = true ∧ octets due (after.getD []) = some os := by
  rw [octets]
  rcases hs : splitAt 46 text with ⟨part, after⟩
  dsimp only
  constructor
  · intro h
    obtain ⟨m, hm, h⟩ := Option.bind_eq_some_iff.mp h
    split at h
    · rename_i hlast
      obtain ⟨rest, hrest, h⟩ := Option.map_eq_some_iff.mp h
      injection h with hn hos
      subst hn hos
      obtain ⟨hle, rfl⟩ := octet_iff.mp hm
      exact ⟨after, rfl, hle, hlast, hrest⟩
    · simp at h
  · rintro ⟨after', he, hle, hlast, hrest⟩
    injection he with hp ha
    subst hp ha
    rw [octet_iff.mpr ⟨hle, rfl⟩, Option.bind_some, if_pos hlast, hrest]
    rfl

theorem octets_length {due : ℕ} {text : Bytes} {os : List ℕ} (h : octets due text = some os) :
    os.length = due := by
  induction due generalizing text os with
  | zero =>
    rw [octets] at h
    rw [← Option.some.inj h]
    rfl
  | succ due ih =>
    cases os with
    | nil =>
      rw [octets] at h
      obtain ⟨m, -, h⟩ := Option.bind_eq_some_iff.mp h
      split at h
      · simp at h
      · simp at h
    | cons n os =>
      obtain ⟨after, -, -, -, hrest⟩ := octets_cons.mp h
      rw [List.length_cons, ih hrest]

/-- The scanner reads the sequences of numerals up to 255, and the last ends the text. -/
theorem octets_iff {due : ℕ} {text : Bytes} {os : List ℕ} (hos : os ≠ []) :
    octets due text = some os ↔
      os.length = due ∧ (∀ o ∈ os, o ≤ 255) ∧ text = joined 46 (os.map decimal) := by
  have hfree : ∀ {n : ℕ}, n ≤ 255 → (46 : UInt8) ∉ decimal n := fun hn => decimal_free hn (by decide)
  induction os generalizing due text with
  | nil => exact absurd rfl hos
  | cons n os ih =>
    cases due with
    | zero => simp [octets]
    | succ due =>
      rw [octets_cons]
      constructor
      · rintro ⟨after, hs, hle, hlast, hrest⟩
        have hlen := octets_length hrest
        have htext := splitAt_text hs
        cases after with
        | none =>
          have hd : due = 0 := by simpa using hlast
          have hnil : os = [] := List.length_eq_zero_iff.mp (hlen.trans hd)
          subst hd hnil
          exact ⟨rfl, by simpa using hle, by simpa using htext⟩
        | some rest =>
          have hd : due ≠ 0 := by simpa using hlast
          have hne : os ≠ [] := fun he => hd (by rw [← hlen, he]; rfl)
          obtain ⟨-, hsmall, hrest⟩ := (ih hne).mp hrest
          refine ⟨by rw [List.length_cons, hlen], ?_, ?_⟩
          · intro o ho
            rcases List.mem_cons.mp ho with rfl | ho
            · exact hle
            · exact hsmall o ho
          · rw [List.map_cons, joined_cons (by simpa using hne), ← hrest]
            exact htext
      · rintro ⟨hlen, hsmall, rfl⟩
        have hle := hsmall n (List.mem_cons_self ..)
        have hrest := fun o ho => hsmall o (List.mem_cons_of_mem _ ho)
        rw [List.length_cons, Nat.add_right_cancel_iff] at hlen
        rw [List.map_cons, splitAt_joined (hfree hle)]
        refine ⟨_, rfl, hle, ?_, ?_⟩
        · subst hlen
          cases os with
          | nil => rfl
          | cons m os => simp
        · by_cases hne : os = []
          · subst hne hlen
            rfl
          · rw [if_neg (by simpa using hne), Option.getD_some]
            exact (ih hne).mpr ⟨hlen, hrest, rfl⟩

theorem decimalAddress_iff {text : Bytes} : decimalAddress 4 text = true ↔ DottedQuad text := by
  rw [decimalAddress_octets, Option.isSome_iff_exists]
  constructor
  · rintro ⟨os, ho⟩
    have hlen := octets_length ho
    obtain ⟨-, hsmall, htext⟩ := (octets_iff (by rintro rfl; simp at hlen)).mp ho
    obtain ⟨w, x, y, z, rfl⟩ := List.length_eq_four.mp hlen
    simp only [List.mem_cons, List.not_mem_nil, or_false, forall_eq_or_imp, forall_eq] at hsmall
    exact ⟨w, x, y, z, hsmall.1, hsmall.2.1, hsmall.2.2.1, hsmall.2.2.2, htext⟩
  · rintro ⟨w, x, y, z, hw, hx, hy, hz, htext⟩
    refine ⟨[w, x, y, z], (octets_iff (by simp)).mpr ⟨rfl, ?_, htext⟩⟩
    simp only [List.mem_cons, List.not_mem_nil, or_false, forall_eq_or_imp, forall_eq]
    exact ⟨hw, hx, hy, hz⟩

/-! ### Host names -/

def isLetter (c : UInt8) : Bool := isLower c || isUpper c

/-- A label: up to 63 letters, digits and hyphens, with no hyphen at either end. -/
structure Label (text : Bytes) : Prop where
  nonempty : text ≠ []
  short : text.length ≤ 63
  bytes : ∀ c ∈ text, isLetter c = true ∨ isDigit c = true ∨ c = 45
  first : text.head? ≠ some 45
  last : text.getLast? ≠ some 45

def HostName (text : Bytes) : Prop :=
  ∃ labels : List Bytes, labels ≠ [] ∧ (∀ label ∈ labels, Label label) ∧ text = joined 46 labels

theorem hostLabel_iff {label : Bytes} : hostLabel label = true ↔ Label label := by
  have hbyte : ∀ c : UInt8, (isAlnum c || c == 45) = true ↔
      (isLetter c = true ∨ isDigit c = true ∨ c = 45) := by
    intro c
    simp only [isAlnum, isLetter, Bool.or_eq_true, beq_iff_eq]
    tauto
  simp only [hostLabel, Bool.and_eq_true, Bool.not_eq_true', List.isEmpty_eq_false_iff,
    decide_eq_true_eq, bne_iff_ne, List.all_eq_true, hbyte]
  constructor
  · rintro ⟨⟨⟨⟨h₁, h₂⟩, h₃⟩, h₄⟩, h₅⟩
    exact ⟨h₁, h₂, h₅, h₃, h₄⟩
  · intro h
    exact ⟨⟨⟨⟨h.nonempty, h.short⟩, h.first⟩, h.last⟩, h.bytes⟩

theorem Label.free {label : Bytes} (h : Label label) : (46 : UInt8) ∉ label := by
  intro hm
  have := h.bytes 46 hm
  revert this
  decide

/-- The loop over labels, with enough fuel for the text. -/
theorem hostLabels_iff {fuel : ℕ} {text : Bytes} (hf : text.length ≤ fuel) :
    hostLabels fuel text = true ↔ HostName text := by
  have hempty : ¬ HostName [] := by
    rintro ⟨labels, hne, hl, htext⟩
    exact hne ((joined_eq_nil fun label hm => (hl label hm).nonempty).mp htext.symm)
  induction fuel generalizing text with
  | zero =>
    have htext : text = [] := List.length_eq_zero_iff.mp (Nat.le_zero.mp hf)
    subst htext
    simp [hostLabels, hempty]
  | succ fuel ih =>
    cases text with
    | nil => simp [hostLabels, hempty]
    | cons b bs =>
      unfold hostLabels
      rcases hs : splitAt 46 (b :: bs) with ⟨label, after⟩
      have htext := splitAt_text hs
      simp only [Bool.and_eq_true, hostLabel_iff]
      constructor
      · rintro ⟨hlabel, hrest⟩
        cases after with
        | none => exact ⟨[label], by simp, by simpa using hlabel, by simpa using htext⟩
        | some rest =>
          have hlen := congrArg List.length htext
          simp only [Option.elim_some, List.length_append, List.length_cons] at hlen
          rw [List.length_cons] at hf
          obtain ⟨labels, hne, hl, hrest⟩ := (ih (by omega)).mp hrest
          refine ⟨label :: labels, by simp, ?_, ?_⟩
          · intro l hm
            rcases List.mem_cons.mp hm with rfl | hm
            · exact hlabel
            · exact hl l hm
          · rw [joined_cons hne, ← hrest]
            exact htext
      · rintro ⟨labels, hne, hl, hjoin⟩
        cases labels with
        | nil => exact absurd rfl hne
        | cons l labels =>
          have hlabel := hl l (List.mem_cons_self ..)
          rw [hjoin, splitAt_joined hlabel.free] at hs
          injection hs with hpart hafter
          subst hpart
          refine ⟨hlabel, ?_⟩
          by_cases hls : labels = []
          · rw [if_pos hls] at hafter
            subst hafter
            rfl
          · rw [if_neg hls] at hafter
            subst hafter
            have hlen := congrArg List.length hjoin
            rw [joined_cons hls, List.length_append] at hlen
            have hfuel : (joined 46 labels).length ≤ fuel := by
              simp only [List.length_cons] at hlen hf
              omega
            exact (ih hfuel).mpr ⟨labels, hls, fun x hx => hl x (List.mem_cons_of_mem _ hx), rfl⟩

/-! ### IPv6 addresses -/

def isHexDigit (c : UInt8) : Bool :=
  isDigit c || (97 ≤ c && c ≤ 102) || (65 ≤ c && c ≤ 70)

/-- A group: one to four hexadecimal digits. -/
structure HexGroup (text : Bytes) : Prop where
  nonempty : text ≠ []
  short : text.length ≤ 4
  digits : ∀ c ∈ text, isHexDigit c = true

/-- Groups with colons between them, and their number. A dotted IPv4 address may end them where
tail allows it, and counts twice. No text at all has no groups. -/
def Groups (tail : Bool) (text : Bytes) (n : ℕ) : Prop :=
  ∃ groups : List Bytes, (∀ group ∈ groups, HexGroup group) ∧
    ((text = joined 58 groups ∧ n = groups.length) ∨
      (tail = true ∧ ∃ quad, DottedQuad quad ∧ text = joined 58 (groups ++ [quad]) ∧
        n = groups.length + 2))

/-- Eight groups, or fewer with one double colon for those that are missing. -/
def IPv6Text (text : Bytes) : Prop :=
  Groups true text 8 ∨
    ∃ left right l r, text = left ++ ascii "::" ++ right ∧ Groups false left l ∧
      Groups true right r ∧ l + r < 8

theorem digitValue_hex (c : UInt8) : (digitValue 16 c).isSome = isHexDigit c := by
  revert c
  apply forall_byte
  decide +kernel

theorem HexGroup.free {group : Bytes} (h : HexGroup group) {c : UInt8} (hc : isHexDigit c = false) :
    c ∉ group := by
  intro hm
  have := h.digits c hm
  rw [hc] at this
  simp at this

theorem fromChars_hex {word : Bytes} :
    (∃ n, fromChars 16 word = some (n, [])) ∧ word.length ≤ 4 ↔ HexGroup word := by
  constructor
  · rintro ⟨⟨n, hn⟩, hlen⟩
    obtain ⟨hne, hdigits, -, -⟩ := fromChars_iff.mp hn
    exact ⟨hne, hlen, fun c hc => (digitValue_hex c).symm.trans (hdigits c hc)⟩
  · intro h
    refine ⟨⟨valueFrom 16 0 word, ?_⟩, h.short⟩
    rw [fromChars_iff]
    refine ⟨h.nonempty, fun c hc => (digitValue_hex c).trans (h.digits c hc), rfl, ?_⟩
    calc valueFrom 16 0 word < (0 + 1) * 16 ^ word.length := valueFrom_lt (by decide) word 0
      _ ≤ (0 + 1) * 16 ^ 4 := Nat.mul_le_mul_left _ (Nat.pow_le_pow_right (by decide) h.short)
      _ ≤ 2 ^ 32 := by decide

theorem DottedQuad.bytes {quad : Bytes} (h : DottedQuad quad) :
    quad ≠ [] ∧ 46 ∈ quad ∧ ∀ c ∈ quad, isDigit c = true ∨ c = 46 := by
  obtain ⟨w, x, y, z, hw, hx, hy, hz, rfl⟩ := h
  have hdigits : ∀ {n : ℕ}, n ≤ 255 → ∀ c ∈ decimal n, isDigit c = true ∨ c = 46 :=
    fun hn c hc => .inl ((decimal_numeral (by omega)).1.digits c hc)
  have htext : joined 46 [decimal w, decimal x, decimal y, decimal z] =
      decimal w ++ 46 :: (decimal x ++ 46 :: (decimal y ++ 46 :: decimal z)) := by
    rw [joined_cons (by simp), joined_cons (by simp), joined_cons (by simp), joined_singleton]
  rw [htext]
  refine ⟨by simp, by simp, ?_⟩
  intro c hc
  simp only [List.mem_append, List.mem_cons] at hc
  rcases hc with hc | rfl | hc | rfl | hc | rfl | hc
  · exact hdigits hw c hc
  · exact .inr rfl
  · exact hdigits hx c hc
  · exact .inr rfl
  · exact hdigits hy c hc
  · exact .inr rfl
  · exact hdigits hz c hc

theorem DottedQuad.free {quad : Bytes} (h : DottedQuad quad) : (58 : UInt8) ∉ quad := by
  intro hm
  have := h.bytes.2.2 58 hm
  revert this
  decide

/-- The parts of a sequence that is one word, or a word and a rest. -/
theorem joined_word {c : UInt8} {word part : Bytes} {parts : List Bytes} (hw : c ∉ word)
    (hp : c ∉ part) (h : word = joined c (part :: parts)) : word = part ∧ parts = [] := by
  have hs := @splitAt_joined c part parts hp
  rw [← h, splitAt_free hw] at hs
  injection hs with hpart hafter
  refine ⟨hpart, ?_⟩
  by_contra hne
  rw [if_neg hne] at hafter
  simp at hafter

theorem joined_rest {c : UInt8} {word rest part : Bytes} {parts : List Bytes} (hw : c ∉ word)
    (hp : c ∉ part) (h : word ++ c :: rest = joined c (part :: parts)) :
    word = part ∧ parts ≠ [] ∧ rest = joined c parts := by
  have hs := @splitAt_joined c part parts hp
  rw [← h, splitAt_append hw] at hs
  injection hs with hpart hafter
  by_cases hne : parts = []
  · rw [if_pos hne] at hafter
    simp at hafter
  · rw [if_neg hne] at hafter
    exact ⟨hpart, hne, Option.some.inj hafter⟩

theorem groups_nil {tail : Bool} {n : ℕ} : Groups tail [] n ↔ n = 0 := by
  constructor
  · rintro ⟨gs, hg, ⟨htext, hn⟩ | ⟨-, quad, hq, htext, -⟩⟩
    · have hnil := (joined_eq_nil fun g hm => (hg g hm).nonempty).mp htext.symm
      rw [hn, hnil]
      rfl
    · have hne : ∀ g ∈ gs ++ [quad], g ≠ [] := by
        intro g hm
        rcases List.mem_append.mp hm with hm | hm
        · exact (hg g hm).nonempty
        · rw [List.mem_singleton.mp hm]
          exact hq.bytes.1
      have hnil := (joined_eq_nil hne).mp htext.symm
      simp at hnil
  · rintro rfl
    exact ⟨[], by simp, .inl ⟨rfl, rfl⟩⟩

theorem groups_word {tail : Bool} {word : Bytes} {n : ℕ} (hw : 58 ∉ word) (hne : word ≠ []) :
    Groups tail word n ↔
      (HexGroup word ∧ n = 1) ∨ (tail = true ∧ DottedQuad word ∧ n = 2) := by
  have hcolon : isHexDigit 58 = false := by decide
  constructor
  · rintro ⟨gs, hg, ⟨htext, hn⟩ | ⟨ht, quad, hq, htext, hn⟩⟩
    · cases gs with
      | nil => exact absurd htext hne
      | cons g gs =>
        have hgroup := hg g (List.mem_cons_self ..)
        obtain ⟨rfl, rfl⟩ := joined_word hw (hgroup.free hcolon) htext
        exact .inl ⟨hgroup, hn⟩
    · cases gs with
      | nil =>
        rw [List.nil_append, joined_singleton] at htext
        subst htext
        exact .inr ⟨ht, hq, hn⟩
      | cons g gs =>
        have hgroup := hg g (List.mem_cons_self ..)
        have hnil := (joined_word hw (hgroup.free hcolon) htext).2
        simp at hnil
  · rintro (⟨hgroup, rfl⟩ | ⟨ht, hq, rfl⟩)
    · exact ⟨[word], by simpa using hgroup, .inl ⟨by simp, rfl⟩⟩
    · exact ⟨[], by simp, .inr ⟨ht, word, hq, by simp, rfl⟩⟩

theorem groups_cons {tail : Bool} {word rest : Bytes} {n : ℕ} (hw : 58 ∉ word) :
    Groups tail (word ++ 58 :: rest) n ↔
      HexGroup word ∧ rest ≠ [] ∧ ∃ m, Groups tail rest m ∧ n = m + 1 := by
  have hcolon : isHexDigit 58 = false := by decide
  constructor
  · rintro ⟨gs, hg, ⟨htext, hn⟩ | ⟨ht, quad, hq, htext, hn⟩⟩
    · cases gs with
      | nil => simp at htext
      | cons g gs =>
        have hgroup := hg g (List.mem_cons_self ..)
        have hgs := fun x hx => hg x (List.mem_cons_of_mem _ hx)
        obtain ⟨rfl, hne, rfl⟩ := joined_rest hw (hgroup.free hcolon) htext
        refine ⟨hgroup, ?_, gs.length, ⟨gs, hgs, .inl ⟨rfl, rfl⟩⟩, hn⟩
        intro hnil
        exact hne ((joined_eq_nil fun x hx => (hgs x hx).nonempty).mp hnil)
    · cases gs with
      | nil =>
        rw [List.nil_append, joined_singleton] at htext
        have := hq.free
        rw [← htext] at this
        simp at this
      | cons g gs =>
        have hgroup := hg g (List.mem_cons_self ..)
        have hgs := fun x hx => hg x (List.mem_cons_of_mem _ hx)
        obtain ⟨rfl, hne, rfl⟩ := joined_rest hw (hgroup.free hcolon) htext
        have htail : Groups tail (joined 58 (gs ++ [quad])) (gs.length + 2) :=
          ⟨gs, hgs, .inr ⟨ht, quad, hq, rfl, rfl⟩⟩
        refine ⟨hgroup, ?_, gs.length + 2, htail, ?_⟩
        · intro hnil
          have hzero : Groups tail [] (gs.length + 2) := by
            rw [← hnil]
            exact htail
          have := groups_nil.mp hzero
          omega
        · rw [hn, List.length_cons]
  · rintro ⟨hgroup, hne, m, ⟨gs, hg, hm⟩, rfl⟩
    refine ⟨word :: gs, ?_, ?_⟩
    · intro x hx
      rcases List.mem_cons.mp hx with rfl | hx
      · exact hgroup
      · exact hg x hx
    · rcases hm with ⟨rfl, rfl⟩ | ⟨ht, quad, hq, rfl, rfl⟩
      · left
        have hgs : gs ≠ [] := by
          rintro rfl
          exact hne rfl
        exact ⟨(joined_cons hgs).symm, rfl⟩
      · right
        refine ⟨ht, quad, hq, ?_, ?_⟩
        · rw [List.cons_append, joined_cons (by simp)]
        · rw [List.length_cons]

/-- A round of the loop over words that finds a group. -/
theorem hex_round {word : Bytes} {k : Option ℕ} {n : ℕ} :
    (match fromChars 16 word with
      | some (_, []) => if 4 < word.length then none else k
      | _ => none) = some n ↔ HexGroup word ∧ k = some n := by
  rw [← fromChars_hex]
  constructor
  · intro h
    split at h
    · rename_i m hm
      split at h
      · simp at h
      · rename_i hlen
        exact ⟨⟨⟨m, hm⟩, Nat.not_lt.mp hlen⟩, h⟩
    · simp at h
  · rintro ⟨⟨⟨m, hm⟩, hlen⟩, hk⟩
    rw [hm]
    dsimp only
    rw [if_neg (Nat.not_lt.mpr hlen), hk]

/-- A round that finds the IPv4 address. -/
theorem quad_round {tail : Bool} {word : Bytes} {n : ℕ} :
    (if (tail && (none : Option Bytes).isNone && decimalAddress 4 word) = true then some 2 else none) =
      some n ↔ tail = true ∧ DottedQuad word ∧ n = 2 := by
  simp only [Option.isNone_none, Bool.and_true, Bool.and_eq_true, decimalAddress_iff,
    Option.ite_none_right_eq_some, Option.some.injEq]
  constructor
  · rintro ⟨⟨ht, hq⟩, hn⟩
    exact ⟨ht, hq, hn.symm⟩
  · rintro ⟨ht, hq, hn⟩
    exact ⟨⟨ht, hq⟩, hn.symm⟩

/-- The loop over words, with enough fuel for the text. -/
theorem countWords_iff {tail : Bool} {fuel n : ℕ} {text : Bytes} (hf : text.length ≤ fuel) :
    countWords tail fuel text = some n ↔ Groups tail text n := by
  have hdot : ∀ {w : Bytes}, 46 ∈ w → ¬ HexGroup w := fun hm hg => hg.free (by decide) hm
  induction fuel generalizing text n with
  | zero =>
    have htext : text = [] := List.length_eq_zero_iff.mp (Nat.le_zero.mp hf)
    subst htext
    rw [groups_nil]
    simp [countWords, eq_comm]
  | succ fuel ih =>
    cases text with
    | nil =>
      rw [groups_nil]
      simp [countWords, eq_comm]
    | cons b bs =>
      unfold countWords
      rcases hs : splitAt 58 (b :: bs) with ⟨word, after⟩
      have htext := splitAt_text hs
      have hw : 58 ∉ word := by
        have hpart := splitAt_part 58 (b :: bs)
        rwa [hs] at hpart
      dsimp only
      cases after with
      | none =>
        have hword : b :: bs = word := by simpa using htext
        rw [hword, groups_word hw (by rw [← hword]; simp)]
        by_cases hd : word.contains 46 = true
        · have hmem := hdot (List.contains_iff_mem.mp hd)
          rw [if_pos hd, quad_round]
          simp only [hmem, false_and, false_or]
        · have hquad : ¬ DottedQuad word := fun hq => hd (List.contains_iff_mem.mpr hq.bytes.2.1)
          rw [if_neg hd]
          refine hex_round.trans ?_
          simp only [hquad, false_and, and_false, or_false, Option.some.injEq, eq_comm]
      | some rest =>
        have hcons : b :: bs = word ++ 58 :: rest := htext
        rw [hcons, groups_cons hw]
        have hlen := congrArg List.length hcons
        rw [List.length_append, List.length_cons (a := 58)] at hlen
        by_cases hd : word.contains 46 = true
        · have hmem := hdot (List.contains_iff_mem.mp hd)
          rw [if_pos hd]
          simp [hmem]
        · rw [if_neg hd]
          refine hex_round.trans ?_
          cases rest with
          | nil => simp
          | cons r rs =>
            have hfuel : (r :: rs).length ≤ fuel := by omega
            have hstep : (countWords tail fuel (r :: rs)).map (· + 1) = some n ↔
                ∃ m, Groups tail (r :: rs) m ∧ n = m + 1 := by
              simp only [Option.map_eq_some_iff, ih hfuel, @eq_comm _ n]
            rw [← hstep]
            simp

/-! ### The double colon -/

theorem splitCompression_word {word rest : Bytes} (hw : 58 ∉ word) :
    splitCompression (word ++ rest) =
      (splitCompression rest).map fun (left, right) => (word ++ left, right) := by
  induction word with
  | nil => simp
  | cons a word ih =>
    have ha : a ≠ 58 := fun he => hw (by rw [he]; exact List.mem_cons_self ..)
    have hrest := ih fun hm => hw (List.mem_cons_of_mem _ hm)
    rw [List.cons_append]
    cases ht : word ++ rest with
    | nil =>
      have hnil : rest = [] := (List.append_eq_nil_iff.mp ht).2
      rw [hnil]
      rfl
    | cons b bs =>
      rw [splitCompression, if_neg (fun hc => ha hc.1), ← ht, hrest, Option.map_map]
      rfl

/-- There is no double colon between words that are not empty. -/
theorem splitCompression_joined {words : List Bytes}
    (h : ∀ word ∈ words, word ≠ [] ∧ (58 : UInt8) ∉ word) (rest : Bytes) :
    splitCompression (joined 58 words ++ rest) =
      (splitCompression rest).map fun (left, right) => (joined 58 words ++ left, right) := by
  induction words with
  | nil => simp
  | cons word words ih =>
    obtain ⟨-, hfree⟩ := h word (List.mem_cons_self ..)
    have hwords := fun x hx => h x (List.mem_cons_of_mem _ hx)
    by_cases hne : words = []
    · subst hne
      rw [joined_singleton, splitCompression_word hfree]
    · -- the byte behind the colon begins the next word
      have hnext : ∃ b bs, joined 58 words = b :: bs ∧ b ≠ 58 := by
        cases words with
        | nil => exact absurd rfl hne
        | cons next words =>
          obtain ⟨hn, hf⟩ := hwords next (List.mem_cons_self ..)
          cases next with
          | nil => exact absurd rfl hn
          | cons b bs =>
            have hb : b ≠ 58 := fun he => hf (by rw [he]; exact List.mem_cons_self ..)
            by_cases hw : words = []
            · subst hw
              exact ⟨b, bs, joined_singleton _ _, hb⟩
            · exact ⟨b, _, joined_cons hw, hb⟩
      obtain ⟨b, bs, hjoin, hb⟩ := hnext
      have hrec := ih hwords
      rw [hjoin, List.cons_append] at hrec
      rw [joined_cons hne, List.append_assoc, splitCompression_word hfree, List.cons_append, hjoin,
        List.cons_append, splitCompression, if_neg (fun hc => hb hc.2), hrec]
      simp [Option.map_map, Function.comp_def]

theorem Groups.words {tail : Bool} {text : Bytes} {n : ℕ} (h : Groups tail text n) :
    ∃ words, text = joined 58 words ∧ ∀ word ∈ words, word ≠ [] ∧ (58 : UInt8) ∉ word := by
  obtain ⟨gs, hg, htext⟩ := h
  have hgroup : ∀ g ∈ gs, g ≠ [] ∧ (58 : UInt8) ∉ g := fun g hm =>
    ⟨(hg g hm).nonempty, (hg g hm).free (by decide)⟩
  rcases htext with ⟨htext, -⟩ | ⟨-, quad, hq, htext, -⟩
  · exact ⟨gs, htext, hgroup⟩
  · refine ⟨gs ++ [quad], htext, ?_⟩
    intro g hm
    rcases List.mem_append.mp hm with hm | hm
    · exact hgroup g hm
    · rw [List.mem_singleton.mp hm]
      exact ⟨hq.bytes.1, hq.free⟩

theorem splitCompression_groups {tail : Bool} {text : Bytes} {n : ℕ} (h : Groups tail text n) :
    splitCompression text = none := by
  obtain ⟨words, rfl, hwords⟩ := h.words
  have hsplit := splitCompression_joined hwords []
  rw [List.append_nil] at hsplit
  rw [hsplit]
  rfl

theorem splitCompression_colons {tail : Bool} {left right : Bytes} {n : ℕ}
    (h : Groups tail left n) :
    splitCompression (left ++ ascii "::" ++ right) = some (left, right) := by
  obtain ⟨words, rfl, hwords⟩ := h.words
  have hcolons : ascii "::" = [58, 58] := by decide
  have hsplit := splitCompression_joined hwords (58 :: 58 :: right)
  rw [hcolons, List.append_assoc]
  rw [List.cons_append, List.cons_append, List.nil_append, hsplit]
  simp [splitCompression]

theorem contains_colons (text : Bytes) :
    contains [58, 58] text = (splitCompression text).isSome := by
  induction text with
  | nil => rfl
  | cons a bs ih =>
    cases bs with
    | nil => simp [contains, splitCompression, List.isPrefixOf]
    | cons b bs =>
      rw [contains, splitCompression, ih]
      by_cases ha : a = 58
      · by_cases hb : b = 58
        · simp [ha, hb]
        · simp [ha, hb, Ne.symm hb]
      · simp [ha, Ne.symm ha]

theorem splitCompression_text {text left right : Bytes}
    (h : splitCompression text = some (left, right)) : text = left ++ 58 :: 58 :: right := by
  induction text generalizing left with
  | nil => simp [splitCompression] at h
  | cons a bs ih =>
    cases bs with
    | nil => simp [splitCompression] at h
    | cons b bs =>
      rw [splitCompression] at h
      split at h
      · rename_i hc
        injection h with h
        injection h with hl hr
        subst hl hr
        rw [hc.1, hc.2]
        rfl
      · obtain ⟨⟨left', right'⟩, hs, he⟩ := Option.map_eq_some_iff.mp h
        injection he with hl hr
        subst hl hr
        rw [ih hs]
        rfl

/-- The IPv6 branch of `validNtpServer`. -/
theorem ipv6_iff {text : Bytes} : ipv6 text = true ↔ IPv6Text text := by
  unfold ipv6
  constructor
  · intro h
    split at h
    · exact .inl ((countWords_iff (Nat.le_refl _)).mp (beq_iff_eq.mp h))
    · rename_i left right hs
      simp only [Bool.and_eq_true] at h
      have h' := h.2
      split at h'
      · rename_i l r hl hr
        have htext : text = left ++ ascii "::" ++ right := by
          rw [splitCompression_text hs, List.append_assoc]
          rfl
        exact .inr ⟨left, right, l, r, htext, (countWords_iff (Nat.le_refl _)).mp hl,
          (countWords_iff (Nat.le_refl _)).mp hr, of_decide_eq_true h'⟩
      · simp at h'
  · rintro (h | ⟨left, right, l, r, rfl, hl, hr, hlt⟩)
    · rw [splitCompression_groups h]
      dsimp only
      rw [beq_iff_eq]
      exact (countWords_iff (Nat.le_refl _)).mpr h
    · rw [splitCompression_colons hl]
      dsimp only
      rw [(countWords_iff (Nat.le_refl _)).mpr hl, (countWords_iff (Nat.le_refl _)).mpr hr,
        contains_colons, splitCompression_groups hr]
      simpa using hlt

/-! ### The whole grammar -/

/-- An NTP server: one to 253 bytes; an IPv6 address if there is a colon, a dotted IPv4 address
if there are only digits and dots, and otherwise a host name that a dot may end. -/
def NtpServer (s : Bytes) : Prop :=
  (1 ≤ s.length ∧ s.length ≤ 253) ∧
    ((58 ∈ s ∧ IPv6Text s) ∨
      (58 ∉ s ∧ (∀ c ∈ s, isDigit c = true ∨ c = 46) ∧ DottedQuad s) ∨
      (58 ∉ s ∧ (¬ ∀ c ∈ s, isDigit c = true ∨ c = 46) ∧
        ∃ body, (s = body ∨ s = body ++ ascii ".") ∧ HostName body))

theorem HostName.last {text : Bytes} (h : HostName text) : text.getLast? ≠ some 46 := by
  obtain ⟨labels, hne, hl, rfl⟩ := h
  induction labels with
  | nil => exact absurd rfl hne
  | cons label labels ih =>
    have hlabel := hl label (List.mem_cons_self ..)
    by_cases hls : labels = []
    · subst hls
      rw [joined_singleton]
      intro he
      exact hlabel.free (List.mem_of_getLast? he)
    · have hrest := ih hls fun x hx => hl x (List.mem_cons_of_mem _ hx)
      have hfull : joined 46 labels ≠ [] := fun he =>
        hls ((joined_eq_nil fun x hx => (hl x (List.mem_cons_of_mem _ hx)).nonempty).mp he)
      rw [joined_cons hls, List.getLast?_append_of_ne_nil _ (by simp), List.getLast?_cons_of_ne_nil hfull]
      exact hrest

/-- The trailing dot that the code removes is the one the grammar allows. -/
theorem trailing_dot {s : Bytes} :
    HostName (if s.getLast? = some 46 then s.dropLast else s) ↔
      ∃ body, (s = body ∨ s = body ++ ascii ".") ∧ HostName body := by
  have hdot : ascii "." = [46] := by decide
  rw [hdot]
  by_cases hl : s.getLast? = some 46
  · rw [if_pos hl]
    have hs := List.dropLast_append_getLast? 46 hl
    constructor
    · intro h
      exact ⟨s.dropLast, .inr hs.symm, h⟩
    · rintro ⟨body, rfl | rfl, h⟩
      · exact absurd hl h.last
      · simpa using h
  · rw [if_neg hl]
    constructor
    · intro h
      exact ⟨s, .inl rfl, h⟩
    · rintro ⟨body, rfl | rfl, h⟩
      · exact h
      · simp at hl

/-- `validNtpServer` accepts exactly the strings of the grammar. -/
theorem validNtpServer_grammar (s : Bytes) : validNtpServer s = true ↔ NtpServer s := by
  have hlength : ¬ (s.isEmpty || decide (253 < s.length)) = true ↔
      1 ≤ s.length ∧ s.length ≤ 253 := by
    simp only [Bool.or_eq_true, List.isEmpty_iff, decide_eq_true_eq, not_or, Nat.not_lt,
      ← List.length_eq_zero_iff]
    omega
  have hdigits : (s.all fun c => isDigit c || c == 46) = true ↔ ∀ c ∈ s, isDigit c = true ∨ c = 46 := by
    simp only [List.all_eq_true, Bool.or_eq_true, beq_iff_eq]
  unfold validNtpServer NtpServer
  rw [← hlength]
  by_cases hl : (s.isEmpty || decide (253 < s.length)) = true
  · rw [if_pos hl]
    simp [hl]
  · rw [if_neg hl]
    by_cases hc : 58 ∈ s
    · rw [if_pos (List.contains_iff_mem.mpr hc), ipv6_iff]
      constructor
      · intro h
        exact ⟨hl, .inl ⟨hc, h⟩⟩
      · rintro ⟨-, ⟨-, h⟩ | ⟨hn, -⟩ | ⟨hn, -⟩⟩
        · exact h
        · exact absurd hc hn
        · exact absurd hc hn
    · rw [if_neg (fun h => hc (List.contains_iff_mem.mp h))]
      by_cases hd : (s.all fun c => isDigit c || c == 46) = true
      · rw [if_pos hd, decimalAddress_iff]
        rw [hdigits] at hd
        constructor
        · intro h
          exact ⟨hl, .inr (.inl ⟨hc, hd, h⟩)⟩
        · rintro ⟨-, ⟨h, -⟩ | ⟨-, -, h⟩ | ⟨-, hn, -⟩⟩
          · exact absurd h hc
          · exact h
          · exact absurd hd hn
      · rw [if_neg hd]
        rw [hdigits] at hd
        rw [← trailing_dot]
        dsimp only
        rw [hostLabels_iff (Nat.le_refl _)]
        constructor
        · intro h
          exact ⟨hl, .inr (.inr ⟨hc, hd, h⟩)⟩
        · rintro ⟨-, ⟨h, -⟩ | ⟨-, hn, -⟩ | ⟨-, -, h⟩⟩
          · exact absurd h hc
          · exact absurd hn hd
          · exact h

-- The servers of the tests, on both sides.
example : (["pool.ntp.org.", "::1", "::ffff:192.0.2.1", "1.2.3.4"].map fun s =>
    validNtpServer (ascii s)) = [true, true, true, true] := by decide
example : (["a..b", ":::1", "256.1.1.1", "01.2.3.4", "fe80::1%eth0", "1:2:3:4:5:6:7::8"].map fun s =>
    validNtpServer (ascii s)) = [false, false, false, false, false, false] := by decide

end Monutchee.System
