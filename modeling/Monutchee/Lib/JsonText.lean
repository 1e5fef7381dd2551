import Monutchee.Lib.Json

/-!
# Reading JSON text

A reader of RFC 8259 texts, given as code points: blanks between the tokens, the escapes of a
string with its surrogate pairs, numbers with fraction and exponent. An object is read as the
list of its members in the order of the text. The fuel of the reader bounds its calls; a text
never needs more than its length. `Spelled s v` says that `s` is read as `v` whatever follows
it, and has a rule for each form of a value.
-/

namespace Monutchee.Lib.Json

/-! ### Characters and strings -/

def blank (c : ℕ) : Bool := c == 32 || c == 9 || c == 10 || c == 13

def skip (s : Text) : Text := s.dropWhile blank

/-- Four hexadecimal digits. -/
def hex4 : Text → Option (ℕ × Text)
  | a :: b :: c :: d :: s => do
    let a ← hexValue a
    let b ← hexValue b
    let c ← hexValue c
    let d ← hexValue d
    return (((a * 16 + b) * 16 + c) * 16 + d, s)
  | _ => none

def highSurrogate (unit : ℕ) : Bool := 0xD800 ≤ unit && unit < 0xDC00

def lowSurrogate (unit : ℕ) : Bool := 0xDC00 ≤ unit && unit < 0xE000

/-- A high surrogate with a low one after it is one code point; alone it stays as it is. -/
def surrogates (unit : ℕ) (s : Text) : ℕ × Text :=
  if highSurrogate unit then
    match s with
    | 92 :: 117 :: t =>
      match hex4 t with
      | some (low, t) =>
        if lowSurrogate low then (0x10000 + (unit - 0xD800) * 0x400 + (low - 0xDC00), t) else (unit, s)
      | none => (unit, s)
    | _ => (unit, s)
  else (unit, s)

/-- The escapes of one letter. -/
def escaped : ℕ → Option ℕ
  | 34 => some 34
  | 92 => some 92
  | 47 => some 47
  | 98 => some 8
  | 102 => some 12
  | 110 => some 10
  | 114 => some 13
  | 116 => some 9
  | _ => none

/-- One character of a string. -/
def character : Text → Option (ℕ × Text)
  | [] => none
  | c :: s =>
    if c = 92 then
      match s with
      | [] => none
      | x :: s =>
        if x = 117 then (hex4 s).map fun p => surrogates p.1 p.2
        else (escaped x).map fun c => (c, s)
    else if c < 32 || c == 34 then none
    else some (c, s)

/-- A string after its first quotation mark. -/
def string : ℕ → Text → Option (Text × Text)
  | 0, _ => none
  | fuel + 1, s =>
    if s.head? = some 34 then some ([], s.tail)
    else do
      let (c, s) ← character s
      let (t, s) ← string fuel s
      return (c :: t, s)

/-! ### Numbers -/

def digit (c : ℕ) : Bool := 48 ≤ c && c ≤ 57

def digitsValue (t : Text) : ℕ := t.foldl (fun n c => n * 10 + (c - 48)) 0

/-- The digits at the front, at least one. -/
def digits (s : Text) : Option (Text × Text) :=
  if (s.takeWhile digit).isEmpty then none else some (s.takeWhile digit, s.dropWhile digit)

/-- A sign that may stand before a number. -/
def minus (s : Text) : ℤ × Text := if s.head? = some 45 then (-1, s.tail) else (1, s)

/-- Nothing follows a zero at the front. -/
def natural (s : Text) : Option (ℕ × Text) :=
  if s.head? = some 48 then some (0, s.tail)
  else (digits s).map fun p => (digitsValue p.1, p.2)

def fraction (s : Text) : Option (Option ℚ × Text) :=
  if s.head? = some 46 then
    (digits s.tail).map fun p => (some ((digitsValue p.1 : ℚ) / 10 ^ p.1.length), p.2)
  else some (none, s)

def exponent (s : Text) : Option (Option ℤ × Text) :=
  if s.head? = some 101 ∨ s.head? = some 69 then
    let (sign, s) := if s.tail.head? = some 43 then (1, s.tail.tail) else minus s.tail
    (digits s).map fun p => (some (sign * digitsValue p.1), p.2)
  else some (none, s)

def scaled (x : ℚ) (e : ℤ) : ℚ := if 0 ≤ e then x * 10 ^ e.toNat else x / 10 ^ (-e).toNat

def number (s : Text) : Option (Json × Text) := do
  let (n, t) ← natural (minus s).2
  let (f, t) ← fraction t
  let (e, t) ← exponent t
  if f.isNone && e.isNone then return (.int ((minus s).1 * n), t)
  else return (.float (scaled (((minus s).1 : ℚ) * (n + f.getD 0)) (e.getD 0)), t)

/-! ### Values -/

mutual

def value : ℕ → Text → Option (Json × Text)
  | 0, _ => none
  | fuel + 1, s =>
    match skip s with
    | [] => none
    | c :: t =>
      if c = 34 then (string (t.length + 1) t).map fun p => (.str p.1, p.2)
      else if c = 91 then
        if (skip t).head? = some 93 then some (.arr [], (skip t).tail)
        else (elements fuel t).map fun p => (.arr p.1, p.2)
      else if c = 123 then
        if (skip t).head? = some 125 then some (.obj [], (skip t).tail)
        else (members fuel t).map fun p => (.obj p.1, p.2)
      else if (text "null").isPrefixOf (c :: t) then some (.null, t.drop 3)
      else if (text "true").isPrefixOf (c :: t) then some (.bool true, t.drop 3)
      else if (text "false").isPrefixOf (c :: t) then some (.bool false, t.drop 4)
      else number (c :: t)

/-- The elements of an array and its end. -/
def elements : ℕ → Text → Option (List Json × Text)
  | 0, _ => none
  | fuel + 1, s => do
    let (v, s) ← value fuel s
    if (skip s).head? = some 93 then return ([v], (skip s).tail)
    else if (skip s).head? = some 44 then
      let (vs, s) ← elements fuel (skip s).tail
      return (v :: vs, s)
    else none

/-- The members of an object and its end. -/
def members : ℕ → Text → Option (List (Text × Json) × Text)
  | 0, _ => none
  | fuel + 1, s =>
    if (skip s).head? = some 34 then do
      let (k, s) ← string ((skip s).tail.length + 1) (skip s).tail
      if (skip s).head? = some 58 then
        let (v, s) ← value fuel (skip s).tail
        if (skip s).head? = some 125 then return ([(k, v)], (skip s).tail)
        else if (skip s).head? = some 44 then
          let (ps, s) ← members fuel (skip s).tail
          return ((k, v) :: ps, s)
        else none
      else none
    else none

end

/-- One value and nothing but blanks after it. -/
def read (s : Text) : Option Json :=
  match value (s.length + 1) s with
  | some (v, rest) => if (skip rest).isEmpty then some v else none
  | none => none

/-! ### Characters as they are written -/

/-- A character of a string: itself, an escape of one letter or one of four digits. -/
def encodes : Text → ℕ → Bool
  | [c], d => c == d && 32 ≤ c && c != 34 && c != 92
  | [b, x], d => b == 92 && x != 117 && escaped x == some d
  | [b, u, x, y, z, w], d => b == 92 && u == 117 && hex4 [x, y, z, w] == some (d, []) && !highSurrogate d
  | _, _ => false

variable {c d : ℕ} {p s t rest : Text} {v : Json}

theorem hex4_append (h : hex4 s = some (d, t)) : hex4 (s ++ rest) = some (d, t ++ rest) := by
  match s, h with
  | x :: y :: z :: w :: s, h =>
    simp only [hex4, List.cons_append, Option.bind_eq_bind, Option.bind_eq_some_iff] at h ⊢
    obtain ⟨x', hx, y', hy, z', hz, w', hw, heq⟩ := h
    refine ⟨x', hx, y', hy, z', hz, w', hw, ?_⟩
    cases heq
    rfl

theorem surrogates_low (h : highSurrogate d = false) : surrogates d s = (d, s) := by
  simp [surrogates, h]

theorem character_encodes (h : encodes p d = true) (rest : Text) :
    character (p ++ rest) = some (d, rest) ∧ (p ++ rest).head? ≠ some 34 := by
  match p, h with
  | [c], h =>
    simp only [encodes, Bool.and_eq_true, beq_iff_eq, decide_eq_true_eq, bne_iff_ne] at h
    obtain ⟨⟨⟨rfl, hlow⟩, hquote⟩, hslash⟩ := h
    have hlow : ¬ c < 32 := by omega
    simp [character, hslash, hquote, hlow]
  | [b, x], h =>
    simp only [encodes, Bool.and_eq_true, beq_iff_eq, bne_iff_ne] at h
    obtain ⟨⟨rfl, hx⟩, hd⟩ := h
    simp [character, hx, hd]
  | [b, u, x, y, z, w], h =>
    simp only [encodes, Bool.and_eq_true, beq_iff_eq, Bool.not_eq_true'] at h
    obtain ⟨⟨⟨rfl, rfl⟩, hd⟩, hunit⟩ := h
    have hd := @hex4_append _ _ _ rest hd
    rw [List.nil_append] at hd
    rw [show [x, y, z, w] ++ rest = x :: y :: z :: w :: rest from rfl] at hd
    simp [character, hd, surrogates_low hunit]

theorem encodes_ne_nil (h : encodes p d = true) : p ≠ [] := by
  rintro rfl
  simp [encodes] at h

/-- A string is read back character by character. -/
theorem string_encodes {enc : ℕ → Text} (h : ∀ c ∈ t, encodes (enc c) c = true) {fuel : ℕ}
    (hfuel : (t.flatMap enc).length < fuel) (rest : Text) :
    string fuel (t.flatMap enc ++ 34 :: rest) = some (t, rest) := by
  induction t generalizing fuel with
  | nil =>
    obtain ⟨fuel, rfl⟩ := Nat.exists_eq_succ_of_ne_zero (by omega : fuel ≠ 0)
    simp [string]
  | cons c t ih =>
    have hc := h c (List.mem_cons_self ..)
    have hpos := List.length_pos_iff.mpr (encodes_ne_nil hc)
    rw [List.flatMap_cons, List.length_append] at hfuel
    obtain ⟨fuel, rfl⟩ := Nat.exists_eq_succ_of_ne_zero (by omega : fuel ≠ 0)
    obtain ⟨hread, hhead⟩ := character_encodes hc (t.flatMap enc ++ 34 :: rest)
    have ih := @ih (fun d hd => h d (List.mem_cons_of_mem _ hd)) fuel (by omega)
    rw [List.flatMap_cons, List.append_assoc, string, if_neg hhead]
    simp [hread, ih]

/-- A text that a string holds as it is. -/
def plain (s : Text) : Bool := s.all fun c => encodes [c] c

theorem string_plain (h : plain s = true) {fuel : ℕ} (hfuel : s.length < fuel) (rest : Text) :
    string fuel (s ++ 34 :: rest) = some (s, rest) := by
  have hs : s.flatMap (fun c => [c]) = s := List.flatMap_singleton' s
  have := @string_encodes s (fun c => [c]) (fun c hc => List.all_eq_true.mp h c hc) fuel
    (by rw [hs]; exact hfuel) rest
  rwa [hs] at this

/-! ### Rules -/

/-- What ends a number. -/
def Stops (rest : Text) : Prop :=
  ∀ c ∈ rest.head?, digit c = false ∧ c ≠ 46 ∧ c ≠ 101 ∧ c ≠ 69

/-- The reader takes `s` for `v`, whatever stands behind it. -/
structure Spelled (s : Text) (v : Json) : Prop where
  start : ∃ c t, s = c :: t ∧ blank c = false ∧ c ≠ 93
  reads : ∀ rest fuel, Stops rest → s.length < fuel → value fuel (s ++ rest) = some (v, rest)

theorem skip_cons (h : blank c = false) : skip (c :: s) = c :: s := by
  simp [skip, h]

theorem stops_cons (h : digit c = false) (hc : c ≠ 46 ∧ c ≠ 101 ∧ c ≠ 69) : Stops (c :: rest) := by
  intro d hd
  obtain rfl : c = d := by simpa using hd
  exact ⟨h, hc⟩

theorem Spelled.skip_append (h : Spelled s v) : skip (s ++ rest) = s ++ rest := by
  obtain ⟨c, t, rfl, hblank, -⟩ := h.start
  rw [List.cons_append, skip_cons hblank]

theorem Spelled.head (h : Spelled s v) : (s ++ rest).head? ≠ some 93 := by
  obtain ⟨c, t, rfl, -, hc⟩ := h.start
  simpa using hc

theorem spelled_str {enc : ℕ → Text} (h : ∀ c ∈ t, encodes (enc c) c = true) :
    Spelled (34 :: t.flatMap enc ++ [34]) (.str t) := by
  refine ⟨⟨34, _, rfl, by decide, by decide⟩, ?_⟩
  intro rest fuel _ hfuel
  obtain ⟨fuel, rfl⟩ := Nat.exists_eq_succ_of_ne_zero (by omega : fuel ≠ 0)
  have hskip : skip (34 :: (t.flatMap enc ++ 34 :: rest)) = 34 :: (t.flatMap enc ++ 34 :: rest) :=
    skip_cons (by decide)
  have hstring := @string_encodes t enc h ((t.flatMap enc ++ 34 :: rest).length + 1)
    (by rw [List.length_append]; omega) rest
  have hshape : 34 :: t.flatMap enc ++ [34] ++ rest = 34 :: (t.flatMap enc ++ 34 :: rest) := by simp
  rw [hshape, value, hskip]
  simp only [if_pos, hstring, Option.map_some]

/-- A number without fraction and exponent. -/
structure Numeral (t : Text) : Prop where
  nonempty : t ≠ []
  digits : ∀ c ∈ t, digit c = true
  canonical : t = [48] ∨ t.head? ≠ some 48

theorem digits_append (ht : t ≠ []) (hd : ∀ c ∈ t, digit c = true) (hrest : Stops rest) :
    digits (t ++ rest) = some (t, rest) := by
  have htake : rest.takeWhile digit = [] ∧ rest.dropWhile digit = rest := by
    cases rest with
    | nil => simp
    | cons c rest =>
      have hc := (hrest c rfl).1
      simp [hc]
  have h₁ : (t ++ rest).takeWhile digit = t := by
    rw [List.takeWhile_append_of_pos hd, htake.1, List.append_nil]
  have h₂ : (t ++ rest).dropWhile digit = rest := by
    rw [List.dropWhile_append_of_pos hd, htake.2]
  unfold digits
  rw [h₁, h₂]
  simp [ht]

theorem natural_append (h : Numeral t) (hrest : Stops rest) :
    natural (t ++ rest) = some (digitsValue t, rest) := by
  rcases h.canonical with rfl | hhead
  · simp [natural, digitsValue]
  · have hhead : (t ++ rest).head? ≠ some 48 := by
      rwa [List.head?_append_of_ne_nil t h.nonempty]
    rw [natural, if_neg hhead, digits_append h.nonempty h.digits hrest, Option.map_some]

theorem number_append {sign : ℤ} (hminus : minus s = (sign, t ++ rest)) (h : Numeral t) (hrest : Stops rest) :
    number s = some (.int (sign * digitsValue t), rest) := by
  have hfraction : fraction rest = some (none, rest) := by
    have hne : rest.head? ≠ some 46 := fun hh => (hrest 46 hh).2.1 rfl
    rw [fraction, if_neg hne]
  have hexponent : exponent rest = some (none, rest) := by
    have hne : ¬ (rest.head? = some 101 ∨ rest.head? = some 69) := by
      rintro (hh | hh)
      · exact (hrest 101 hh).2.2.1 rfl
      · exact (hrest 69 hh).2.2.2 rfl
    rw [exponent, if_neg hne]
  unfold number
  rw [hminus, natural_append h hrest]
  simp [hfraction, hexponent]

/-- What begins with a digit or the sign goes to the numbers. -/
theorem value_number {fuel : ℕ} (h : digit c = true ∨ c = 45) : value (fuel + 1) (c :: s) = number (c :: s) := by
  have hr : c = 45 ∨ 48 ≤ c ∧ c ≤ 57 := by
    rcases h with h | h
    · simp only [digit, Bool.and_eq_true, decide_eq_true_eq] at h
      exact .inr h
    · exact .inl h
  have hblank : blank c = false := by
    simp only [blank, Bool.or_eq_false_iff, beq_eq_false_iff_ne]
    omega
  have hword : ∀ d w, text w = d :: (text w).tail → 57 < d → (text w).isPrefixOf (c :: s) = false := by
    intro d w hw hd
    have hne : (d == c) = false := by
      rw [beq_eq_false_iff_ne]
      omega
    rw [hw, List.isPrefixOf, hne, Bool.false_and]
  rw [value, skip_cons hblank]
  simp only [hword 110 "null" rfl (by decide), hword 116 "true" rfl (by decide),
    hword 102 "false" rfl (by decide)]
  have h₁ : c ≠ 34 := by omega
  have h₂ : c ≠ 91 := by omega
  have h₃ : c ≠ 123 := by omega
  simp [h₁, h₂, h₃]

theorem spelled_int (h : Numeral t) : Spelled t (.int (digitsValue t)) := by
  obtain ⟨c, t', rfl⟩ := List.exists_cons_of_ne_nil h.nonempty
  have hc := h.digits c (List.mem_cons_self ..)
  have hr : 48 ≤ c ∧ c ≤ 57 := by simpa [digit] using hc
  refine ⟨⟨c, t', rfl, ?_, by omega⟩, ?_⟩
  · simp only [blank, Bool.or_eq_false_iff, beq_eq_false_iff_ne]
    omega
  · intro rest fuel hrest hfuel
    obtain ⟨fuel, rfl⟩ := Nat.exists_eq_succ_of_ne_zero (by omega : fuel ≠ 0)
    have hminus : minus (c :: t' ++ rest) = (1, c :: t' ++ rest) := by
      have hne : (c :: t' ++ rest).head? ≠ some 45 := by
        rw [List.cons_append, List.head?_cons]
        intro he
        have := Option.some.inj he
        omega
      rw [minus, if_neg hne]
    have hnumber := number_append hminus h hrest
    rw [List.cons_append] at hnumber ⊢
    rw [value_number (.inl hc), hnumber, Int.one_mul]

theorem spelled_neg (h : Numeral t) : Spelled (45 :: t) (.int (-digitsValue t)) := by
  refine ⟨⟨45, t, rfl, by decide, by decide⟩, ?_⟩
  intro rest fuel hrest hfuel
  obtain ⟨fuel, rfl⟩ := Nat.exists_eq_succ_of_ne_zero (by omega : fuel ≠ 0)
  have hminus : minus (45 :: t ++ rest) = (-1, t ++ rest) := by simp [minus]
  have hnumber := number_append hminus h hrest
  rw [List.cons_append] at hnumber ⊢
  rw [value_number (.inr rfl), hnumber, Int.neg_one_mul]

/-- Parts with a comma between them. -/
def separated : List Text → Text
  | [] => []
  | [s] => s
  | s :: t :: ss => s ++ 44 :: separated (t :: ss)

theorem separated_cons (s : Text) (ss : List Text) : ∃ t, separated (s :: ss) = s ++ t := by
  cases ss with
  | nil => exact ⟨[], (List.append_nil s).symm⟩
  | cons t ss => exact ⟨_, rfl⟩

theorem elements_separated {ss : List Text} {vs : List Json} (h : List.Forall₂ Spelled ss vs) (hne : ss ≠ [])
    {fuel : ℕ} (hfuel : (separated ss).length + 1 < fuel) (rest : Text) :
    elements fuel (separated ss ++ 93 :: rest) = some (vs, rest) := by
  induction h generalizing fuel with
  | nil => exact absurd rfl hne
  | @cons s v ss vs hs htail ih =>
    obtain ⟨fuel, rfl⟩ := Nat.exists_eq_succ_of_ne_zero (by omega : fuel ≠ 0)
    cases htail with
    | nil =>
      have hread := hs.reads (93 :: rest) fuel (stops_cons (by decide) (by decide)) (by
        rw [separated] at hfuel
        omega)
      rw [separated, elements, hread]
      simp [skip_cons (show blank 93 = false from rfl)]
    | @cons t w ss vs ht htail =>
      rw [separated, List.length_append, List.length_cons] at hfuel
      have ih := @ih (by simp) fuel (by omega)
      have hread := hs.reads (44 :: (separated (t :: ss) ++ 93 :: rest)) fuel
        (stops_cons (by decide) (by decide)) (by omega)
      rw [separated, List.append_assoc, List.cons_append, elements, hread]
      simp [skip_cons (show blank 44 = false from rfl), ih]

theorem spelled_arr {ss : List Text} {vs : List Json} (h : List.Forall₂ Spelled ss vs) :
    Spelled (91 :: separated ss ++ [93]) (.arr vs) := by
  refine ⟨⟨91, _, rfl, by decide, by decide⟩, ?_⟩
  intro rest fuel _ hfuel
  obtain ⟨fuel, rfl⟩ := Nat.exists_eq_succ_of_ne_zero (by omega : fuel ≠ 0)
  have hshape : 91 :: separated ss ++ [93] ++ rest = 91 :: (separated ss ++ 93 :: rest) := by simp
  rw [hshape, value, skip_cons (show blank 91 = false from rfl)]
  cases h with
  | nil => simp [separated, skip_cons (show blank 93 = false from rfl)]
  | @cons s v ss vs hs htail =>
    obtain ⟨t, ht⟩ := separated_cons s ss
    have hskip : skip (separated (s :: ss) ++ 93 :: rest) = separated (s :: ss) ++ 93 :: rest := by
      rw [ht, List.append_assoc, hs.skip_append]
    have hhead : (separated (s :: ss) ++ 93 :: rest).head? ≠ some 93 := by
      rw [ht, List.append_assoc]
      exact hs.head
    have hread := @elements_separated _ _ (.cons hs htail) (by simp) fuel (by
      simp only [List.length_append, List.length_cons, List.length_nil] at hfuel
      omega) rest
    simp only [hskip, hread, if_neg hhead]
    simp

theorem separated_all {P : ℕ → Prop} (hcomma : P 44) {ss : List Text} (h : ∀ s ∈ ss, ∀ c ∈ s, P c) :
    ∀ c ∈ separated ss, P c := by
  induction ss with
  | nil => simp [separated]
  | cons s ss ih =>
    have hs := h s (List.mem_cons_self ..)
    have ih := ih fun t ht => h t (List.mem_cons_of_mem _ ht)
    cases ss with
    | nil => exact hs
    | cons t ss =>
      intro c hc
      rcases List.mem_append.mp hc with hc | hc
      · exact hs c hc
      · rcases List.mem_cons.mp hc with rfl | hc
        · exact hcomma
        · exact ih c hc

/-- A member under a key that needs no escape. -/
def member (m : Text × Text) : Text := 34 :: m.1 ++ 34 :: 58 :: m.2

/-- The text and the value of one member. -/
structure SpelledMember (m : Text × Text) (q : Text × Json) : Prop where
  key : m.1 = q.1
  plain : plain m.1 = true
  value : Spelled m.2 q.2

theorem members_separated {ms : List (Text × Text)} {ps : List (Text × Json)}
    (h : List.Forall₂ SpelledMember ms ps) (hne : ms ≠ []) {fuel : ℕ}
    (hfuel : (separated (ms.map member)).length + 1 < fuel) (rest : Text) :
    members fuel (separated (ms.map member) ++ 125 :: rest) = some (ps, rest) := by
  induction h generalizing fuel with
  | nil => exact absurd rfl hne
  | @cons m q ms ps hm htail ih =>
    obtain ⟨fuel, rfl⟩ := Nat.exists_eq_succ_of_ne_zero (by omega : fuel ≠ 0)
    obtain ⟨k, s⟩ := m
    obtain ⟨k', v⟩ := q
    obtain rfl : k = k' := hm.key
    have hstring : ∀ behind, string ((k ++ 34 :: 58 :: behind).length + 1) (k ++ 34 :: 58 :: behind) =
        some (k, 58 :: behind) := fun behind => string_plain hm.plain (by
          show k.length < (k ++ 34 :: 58 :: behind).length + 1
          rw [List.length_append]
          omega) _
    have hquote : ∀ behind, skip (34 :: behind) = 34 :: behind := fun _ => skip_cons rfl
    have hcolon : ∀ behind, skip (58 :: behind) = 58 :: behind := fun _ => skip_cons rfl
    cases htail with
    | nil =>
      simp only [List.map_cons, List.map_nil, separated, member, List.length_append, List.length_cons] at hfuel
      have hread := hm.value.reads (125 :: rest) fuel (stops_cons (by decide) (by decide)) (by
        simp only
        omega)
      have hshape : separated ([(k, s)].map member) ++ 125 :: rest = 34 :: (k ++ 34 :: 58 :: (s ++ 125 :: rest)) := by
        simp [separated, member]
      rw [hshape, members]
      simp only [hquote, List.head?_cons, List.tail_cons, hstring, Option.bind_eq_bind, Option.bind_some,
        hcolon, hread, if_pos]
      simp [skip_cons (show blank 125 = false from rfl)]
    | @cons m' q' ms ps hm' htail =>
      simp only [List.map_cons, separated, member, List.length_append, List.length_cons] at hfuel
      have ih := @ih (by simp) fuel (by
        simp only [List.map_cons, member]
        omega)
      have hread := hm.value.reads (44 :: (separated ((m' :: ms).map member) ++ 125 :: rest)) fuel
        (stops_cons (by decide) (by decide)) (by
          simp only
          omega)
      have hshape : separated (((k, s) :: m' :: ms).map member) ++ 125 :: rest =
          34 :: (k ++ 34 :: 58 :: (s ++ 44 :: (separated ((m' :: ms).map member) ++ 125 :: rest))) := by
        simp [separated, member]
      rw [hshape, members]
      simp only [hquote, List.head?_cons, List.tail_cons, hstring, Option.bind_eq_bind, Option.bind_some,
        hcolon, hread, if_pos, skip_cons (show blank 44 = false from rfl), ih]
      simp

theorem spelled_obj {ms : List (Text × Text)} {ps : List (Text × Json)}
    (h : List.Forall₂ SpelledMember ms ps) :
    Spelled (123 :: separated (ms.map member) ++ [125]) (.obj ps) := by
  refine ⟨⟨123, _, rfl, by decide, by decide⟩, ?_⟩
  intro rest fuel _ hfuel
  obtain ⟨fuel, rfl⟩ := Nat.exists_eq_succ_of_ne_zero (by omega : fuel ≠ 0)
  have hshape : 123 :: separated (ms.map member) ++ [125] ++ rest =
      123 :: (separated (ms.map member) ++ 125 :: rest) := by simp
  rw [hshape, value, skip_cons (show blank 123 = false from rfl)]
  cases h with
  | nil => simp [separated, skip_cons (show blank 125 = false from rfl)]
  | @cons m q ms ps hm htail =>
    obtain ⟨t, ht⟩ := separated_cons (member m) (ms.map member)
    have hskip : skip (separated ((m :: ms).map member) ++ 125 :: rest) =
        separated ((m :: ms).map member) ++ 125 :: rest := by
      rw [List.map_cons, ht, member, List.append_assoc]
      exact skip_cons rfl
    have hhead : (separated ((m :: ms).map member) ++ 125 :: rest).head? ≠ some 125 := by
      rw [List.map_cons, ht, member]
      simp
    have hread := @members_separated _ _ (.cons hm htail) (by simp) fuel (by
      simp only [List.length_append, List.length_cons, List.length_nil] at hfuel
      omega) rest
    simp only [hskip, hhead, hread]
    simp

/-- A text that is spelled out is read. -/
theorem read_spelled (h : Spelled s v) : read s = some v := by
  have hread := h.reads [] (s.length + 1) (by simp [Stops]) (Nat.lt_succ_self _)
  rw [List.append_nil] at hread
  unfold read
  rw [hread]
  simp [skip]

example : (match read (text "\x7b\"a\": [1, \"\\u0041\\n\"], \"b\" : null\x7d") with
    | some (.obj [(k, .arr [.int 1, .str t]), (_, .null)]) => k == text "a" && t == [65, 10]
    | _ => false) = true := by decide +kernel

end Monutchee.Lib.Json
