import Mathlib.Data.List.DropRight
import Mathlib.Data.Nat.Digits.Lemmas
import Monutchee.Lib.Checked
import Monutchee.Lib.Json

/-!
# The environment override (load-jtag-image.tcl:69-80, 451-474; mnc_u-boot-xlnx-addon.env:42-50)

`validate_ipv4` leaves the octets to `string is integer -strict`, which takes white space around a
number, signs, other bases and leading zeros. What it accepts is written as it is into a text that
U-Boot imports from a window of 0x100 bytes.
-/

namespace Monutchee.Jtag.Override
open Monutchee.Lib

/-! ### Tcl -/

def isSpace (c : ℕ) : Bool := c == 32 || (9 ≤ c && c ≤ 13)

def trimSpace (s : Text) : Text := (s.dropWhile isSpace).rdropWhile isSpace

/-- The digits behind those that make up `n`. -/
def digitsFrom (base : ℕ) : ℕ → Text → Option ℕ
  | n, [] => some n
  | n, c :: rest =>
    match hexValue c with
    | some d => if d < base then digitsFrom base (n * base + d) rest else none
    | none => none

/-- At least one digit. -/
def digits (base : ℕ) (s : Text) : Option ℕ := if s = [] then none else digitsFrom base 0 s

/-- A number without its sign; a leading zero makes it octal. -/
def unsigned : Text → Option ℕ
  | 48 :: c :: rest =>
    if c = 120 ∨ c = 88 then digits 16 rest
    else if c = 98 ∨ c = 66 then digits 2 rest
    else if c = 111 ∨ c = 79 then digits 8 rest
    else digits 8 (c :: rest)
  | s => digits 10 s

/-- A number of at most 32 bits, with white space around it. -/
def integer (s : Text) : Option ℤ :=
  let value : Option ℤ :=
    match trimSpace s with
    | 43 :: rest => (unsigned rest).map fun n : ℕ => (n : ℤ)
    | 45 :: rest => (unsigned rest).map fun n : ℕ => -(n : ℤ)
    | rest => (unsigned rest).map fun n : ℕ => (n : ℤ)
  value.filter fun n => n.natAbs < 2 ^ 32

/-- `split $value "."` -/
def split (value : Text) : List Text := if value = [] then [] else value.splitOn 46

/-! ### The loader -/

def isOctet (octet : Text) : Bool :=
  match integer octet with
  | some n => 0 ≤ n && n ≤ 255
  | none => false

def validateIpv4 (label value : Text) : Except Text Unit := do
  let octets := split value
  refuse (octets.length ≠ 4) (label ++ text " is not an IPv4 address: " ++ value)
  octets.forM fun octet => refuse (!isOctet octet) (label ++ text " is not an IPv4 address: " ++ value)

def overrideText (server board : Text) : Text :=
  text "mncos_tftp_serverip=" ++ server ++ [10] ++
    (if board = [] then text "mncos_jtag_use_dhcp=yes" ++ [10]
    else text "ipaddr=" ++ board ++ [10] ++ (text "mncos_jtag_use_dhcp=no" ++ [10])) ++ [0]

/-- The bytes that `download_env_override` writes; a binary channel takes the low byte of a character. -/
def envOverride (server board : Text) : List ℕ := (overrideText server board).map (· % 256)

/-! ### U-Boot -/

/-- `mncos_jtag_env_size` -/
def ENV_SIZE : ℕ := 0x100

/-- The variables that `mncos_jtag_import_env` takes. -/
def IMPORTED : List Text := [text "mncos_tftp_serverip", text "ipaddr", text "mncos_jtag_use_dhcp"]

def line (v : Text × Text) : Text := v.1 ++ [61] ++ v.2 ++ [10]

/-- A variable that a line carries as it is. -/
structure Ordinary (v : Text × Text) : Prop where
  named : v.1 ≠ [] ∧ ∀ c ∈ v.1, c ∉ [0, 9, 10, 32, 35, 61]
  valued : v.2 ≠ [] ∧ ∀ c ∈ v.2, c ∉ [0, 10, 92]

/-- `env import -t`: what it takes from the memory at an address, up to a size. -/
structure Importer where
  run : List ℕ → ℕ → List Text → List (Text × Text)
  /-- Lines up to a zero byte are imported as they are. -/
  lines : ∀ (vars : List (Text × Text)) (rest : List ℕ) (size : ℕ) (names : List Text), (∀ v ∈ vars, Ordinary v) → (vars.map Prod.fst).Nodup →
    (vars.flatMap line).length < size →
    run (vars.flatMap line ++ 0 :: rest) size names = vars.filter fun v => v.1 ∈ names

/-! ### An override that arrives -/

def decimal (n : ℕ) : Text := if n = 0 then [48] else (Nat.digits 10 n).reverse.map (· + 48)

/-- Four canonical decimal octets. -/
def Canonical (value : Text) : Prop :=
  ∃ octets : List ℕ, octets.length = 4 ∧ (∀ n ∈ octets, n ≤ 255) ∧ value = [46].intercalate (octets.map decimal)

def overrideVariables (server board : Text) : List (Text × Text) :=
  (text "mncos_tftp_serverip", server) ::
    if board = [] then [(text "mncos_jtag_use_dhcp", text "yes")]
    else [(text "ipaddr", board), (text "mncos_jtag_use_dhcp", text "no")]

structure Intact (importer : Importer) (server board : Text) : Prop where
  canonicalServer : Canonical server
  canonicalBoard : board = [] ∨ Canonical board
  fits : (envOverride server board).length ≤ ENV_SIZE
  imported : ∀ rest, importer.run (envOverride server board ++ rest) ENV_SIZE IMPORTED = overrideVariables server board

def isDigit (c : ℕ) : Bool := 48 ≤ c && c ≤ 57

/-- Every octet is written with digits only, and without a leading zero. -/
def Plain (value : Text) : Prop :=
  ∀ octet ∈ value.splitOn 46, (∀ c ∈ octet, isDigit c = true) ∧ (octet.length ≤ 1 ∨ octet.head? ≠ some 48)

variable {value octet server board label : Text} {n : ℕ}

/-! ### Octets -/

theorem hexValue_digit {c : ℕ} (h : isDigit c = true) : hexValue c = some (c - 48) := by
  simp only [isDigit, Bool.and_eq_true, decide_eq_true_eq] at h
  exact if_pos h

theorem trimSpace_digits {s : Text} (h : ∀ c ∈ s, isDigit c = true) : trimSpace s = s := by
  have hspace : ∀ c ∈ s, isSpace c = false := by
    intro c hc
    have hd := h c hc
    simp only [isDigit, Bool.and_eq_true, decide_eq_true_eq] at hd
    simp only [isSpace, Bool.or_eq_false_iff, Bool.and_eq_false_iff, beq_eq_false_iff_ne, decide_eq_false_iff_not]
    omega
  unfold trimSpace
  have hfront : s.dropWhile isSpace = s := by
    cases s with
    | nil => rfl
    | cons c rest => exact List.dropWhile_cons_of_neg (by simp [hspace c (List.mem_cons_self ..)])
  rw [hfront, List.rdropWhile_eq_self_iff]
  intro hne
  simp [hspace _ (List.getLast_mem hne)]

theorem digitsFrom_eq {s : Text} (h : ∀ c ∈ s, isDigit c = true) (n : ℕ) :
    digitsFrom 10 n s = some (n * 10 ^ s.length + Nat.ofDigits 10 (s.map (· - 48)).reverse) := by
  induction s generalizing n with
  | nil => simp [digitsFrom]
  | cons c rest ih =>
    have hc := h c (List.mem_cons_self ..)
    have hless : c - 48 < 10 := by
      simp only [isDigit, Bool.and_eq_true, decide_eq_true_eq] at hc
      omega
    rw [digitsFrom, hexValue_digit hc]
    simp only [hless, if_true]
    rw [ih (fun c hc => h c (List.mem_cons_of_mem _ hc)), List.map_cons, List.reverse_cons,
      Nat.ofDigits_append, List.length_reverse, List.length_map, Nat.ofDigits_singleton, List.length_cons]
    congr 1
    ring

/-- Digits without a leading zero are the decimal of their value. -/
theorem decimal_of_digits {s : Text} (hne : s ≠ []) (h : ∀ c ∈ s, isDigit c = true)
    (hzero : s.length ≤ 1 ∨ s.head? ≠ some 48) : s = decimal (Nat.ofDigits 10 (s.map (· - 48)).reverse) := by
  have hrange : ∀ c ∈ s, 48 ≤ c ∧ c ≤ 57 := by
    intro c hc
    have hd := h c hc
    simpa only [isDigit, Bool.and_eq_true, decide_eq_true_eq] using hd
  obtain ⟨first, rest, rfl⟩ := List.exists_cons_of_ne_nil hne
  by_cases hfirst : first = 48
  · subst hfirst
    have hrest : rest = [] := by
      rcases hzero with hlength | hhead
      · exact List.eq_nil_of_length_eq_zero (by simpa using hlength)
      · exact absurd rfl hhead
    subst hrest
    rfl
  · have hdigits : Nat.digits 10 (Nat.ofDigits 10 ((first :: rest).map (· - 48)).reverse) =
        ((first :: rest).map (· - 48)).reverse := by
      apply Nat.digits_ofDigits 10 (by omega)
      · intro d hd
        obtain ⟨c, hc, rfl⟩ := List.mem_map.mp (List.mem_reverse.mp hd)
        have := hrange c hc
        omega
      · intro hl
        simp only [List.getLast_reverse, List.map_cons, List.head_cons]
        have := hrange first (List.mem_cons_self ..)
        omega
    have hvalue : Nat.ofDigits 10 ((first :: rest).map (· - 48)).reverse ≠ 0 := by
      intro h0
      rw [h0, Nat.digits_zero] at hdigits
      simp at hdigits
    unfold decimal
    rw [if_neg hvalue, hdigits, List.reverse_reverse, List.map_map]
    have hback : (first :: rest).map ((· + 48) ∘ (· - 48)) = (first :: rest).map id := by
      apply List.map_congr_left
      intro c hc
      have := hrange c hc
      simp only [Function.comp_apply, id_eq]
      omega
    rw [hback, List.map_id]

theorem decimal_digits (n : ℕ) : ∀ c ∈ decimal n, isDigit c = true := by
  intro c hc
  unfold decimal at hc
  split at hc
  · rw [List.mem_singleton.mp hc]
    rfl
  · obtain ⟨d, hd, rfl⟩ := List.mem_map.mp hc
    have hless := Nat.digits_lt_base (by omega : 1 < 10) (List.mem_reverse.mp hd)
    simp only [isDigit, Bool.and_eq_true, decide_eq_true_eq]
    omega

theorem decimal_leading (n : ℕ) : (decimal n).length ≤ 1 ∨ (decimal n).head? ≠ some 48 := by
  unfold decimal
  split
  · exact .inl le_rfl
  · next hn =>
    right
    have hlast := Nat.getLast_digit_ne_zero 10 hn
    rw [List.head?_map, List.head?_reverse, List.getLast?_eq_some_getLast (Nat.digits_ne_nil_iff_ne_zero.mpr hn)]
    simpa using hlast

theorem decimal_length (h : n ≤ 255) : 1 ≤ (decimal n).length ∧ (decimal n).length ≤ 3 := by
  unfold decimal
  split
  · exact ⟨le_rfl, by simp⟩
  · next hn =>
    rw [List.length_map, List.length_reverse]
    refine ⟨List.length_pos_iff.mpr (Nat.digits_ne_nil_iff_ne_zero.mpr hn), ?_⟩
    rw [Nat.digits_length_le_iff (by omega)]
    omega

theorem unsigned_plain {s : Text} (hzero : s.length ≤ 1 ∨ s.head? ≠ some 48) : unsigned s = digits 10 s := by
  unfold unsigned
  split
  · rcases hzero with hlength | hhead
    · simp at hlength
    · exact absurd rfl hhead
  · rfl

/-- An octet that is accepted, written with digits only and without a leading zero. -/
theorem octet_decimal (hoctet : isOctet octet = true) (h : ∀ c ∈ octet, isDigit c = true)
    (hzero : octet.length ≤ 1 ∨ octet.head? ≠ some 48) : ∃ n ≤ 255, octet = decimal n := by
  have hne : octet ≠ [] := by
    rintro rfl
    exact absurd hoctet (by decide)
  have hunsigned : unsigned octet = some (Nat.ofDigits 10 (octet.map (· - 48)).reverse) := by
    rw [unsigned_plain hzero, digits, if_neg hne, digitsFrom_eq h 0]
    simp
  have hinteger : integer octet = Option.filter (fun n : ℤ => n.natAbs < 2 ^ 32)
      (some ((Nat.ofDigits 10 (octet.map (· - 48)).reverse : ℕ) : ℤ)) := by
    unfold integer
    rw [trimSpace_digits h]
    simp only
    split
    · exact absurd (h 43 (List.mem_cons_self ..)) (by decide)
    · exact absurd (h 45 (List.mem_cons_self ..)) (by decide)
    · rw [hunsigned]
      rfl
  refine ⟨Nat.ofDigits 10 (octet.map (· - 48)).reverse, ?_, decimal_of_digits hne h hzero⟩
  unfold isOctet at hoctet
  rw [hinteger, Option.filter_some] at hoctet
  split at hoctet
  next n hn =>
    split at hn
    · cases hn
      simp only [Bool.and_eq_true, decide_eq_true_eq] at hoctet
      exact_mod_cast hoctet.2
    · cases hn
  next => cases hoctet

/-! ### Addresses -/

theorem validate_ok_iff : validateIpv4 label value = .ok () ↔
    (value.splitOn 46).length = 4 ∧ ∀ octet ∈ value.splitOn 46, isOctet octet = true := by
  have hsplit : (split value).length = 4 ↔ (value.splitOn 46).length = 4 := by
    unfold split
    by_cases hne : value = []
    · rw [if_pos hne, hne]
      simp
    · rw [if_neg hne]
  have hsame : (value.splitOn 46).length = 4 → split value = value.splitOn 46 := by
    intro hlength
    unfold split
    split
    · next hnil =>
      rw [hnil] at hlength
      cases hlength
    · rfl
  unfold validateIpv4
  simp only [bind_ok, refuse_ok, forM_ok, decide_eq_false_iff_not, not_not, Bool.not_eq_false', hsplit]
  constructor
  · rintro ⟨_, hlength, hoctets⟩
    rw [hsame hlength] at hoctets
    exact ⟨hlength, hoctets⟩
  · rintro ⟨hlength, hoctets⟩
    refine ⟨(), hlength, ?_⟩
    rw [hsame hlength]
    exact hoctets

/-- A blank in front makes no difference. -/
theorem validate_blank (h : validateIpv4 label value = .ok ()) : validateIpv4 label (32 :: value) = .ok () := by
  obtain ⟨hlength, hoctets⟩ := validate_ok_iff.mp h
  have hblank : ∀ octet : Text, isOctet (32 :: octet) = isOctet octet := fun octet => rfl
  have hsplit : (32 :: value).splitOn 46 = (value.splitOn 46).modifyHead (32 :: ·) := by
    rw [List.splitOn_cons_eq_if_modifyHead]
    rfl
  rw [validate_ok_iff, hsplit, List.length_modifyHead]
  refine ⟨hlength, ?_⟩
  cases hs : value.splitOn 46 with
  | nil => exact absurd hs (List.splitOn_ne_nil _ _)
  | cons first rest =>
    rw [hs] at hoctets
    intro octet ho
    rcases List.mem_cons.mp ho with rfl | ho
    · rw [hblank]
      exact hoctets first (List.mem_cons_self ..)
    · exact hoctets octet (List.mem_cons_of_mem _ ho)

theorem validate_blanks (k : ℕ) (h : validateIpv4 label value = .ok ()) :
    validateIpv4 label (List.replicate k 32 ++ value) = .ok () := by
  induction k with
  | zero => exact h
  | succ k ih => exact validate_blank ih

theorem plain_canonical (h : validateIpv4 label value = .ok ()) (hplain : Plain value) : Canonical value := by
  obtain ⟨hlength, hoctets⟩ := validate_ok_iff.mp h
  have hdecimal : ∀ octet ∈ value.splitOn 46, ∃ n ≤ 255, octet = decimal n := fun octet ho =>
    octet_decimal (hoctets octet ho) (hplain octet ho).1 (hplain octet ho).2
  have hlist : ∀ octets : List Text, (∀ octet ∈ octets, ∃ n ≤ 255, octet = decimal n) →
      ∃ ns : List ℕ, (∀ n ∈ ns, n ≤ 255) ∧ octets = ns.map decimal := by
    intro octets
    induction octets with
    | nil => exact fun _ => ⟨[], by simp, rfl⟩
    | cons octet octets ih =>
      intro hall
      obtain ⟨n, hn, rfl⟩ := hall octet (List.mem_cons_self ..)
      obtain ⟨ns, hns, rfl⟩ := ih fun o ho => hall o (List.mem_cons_of_mem _ ho)
      exact ⟨n :: ns, List.forall_mem_cons.mpr ⟨hn, hns⟩, rfl⟩
  obtain ⟨ns, hless, hsplit⟩ := hlist _ hdecimal
  refine ⟨ns, ?_, hless, ?_⟩
  · rw [hsplit, List.length_map] at hlength
    exact hlength
  · rw [← hsplit, List.intercalate_splitOn]

theorem canonical_plain (h : Canonical value) : Plain value := by
  obtain ⟨octets, hlength, -, rfl⟩ := h
  have hdot : ∀ octet ∈ octets.map decimal, 46 ∉ octet := by
    intro octet ho hm
    obtain ⟨n, -, rfl⟩ := List.mem_map.mp ho
    exact absurd (decimal_digits n 46 hm) (by decide)
  have hne : octets.map decimal ≠ [] := by
    intro hnil
    rw [List.map_eq_nil_iff.mp hnil] at hlength
    cases hlength
  unfold Plain
  rw [List.splitOn_intercalate 46 hdot hne]
  intro octet ho
  obtain ⟨n, -, rfl⟩ := List.mem_map.mp ho
  exact ⟨decimal_digits n, decimal_leading n⟩

/-- An address has at most 15 characters, digits and dots. -/
theorem canonical_text (h : Canonical value) :
    value ≠ [] ∧ value.length ≤ 15 ∧ ∀ c ∈ value, c = 46 ∨ isDigit c = true := by
  obtain ⟨octets, hlength, hless, rfl⟩ := h
  rcases octets with _ | ⟨a, _ | ⟨b, _ | ⟨c, _ | ⟨d, rest⟩⟩⟩⟩
  · cases hlength
  · cases hlength
  · cases hlength
  · cases hlength
  have hrest : rest = [] := List.eq_nil_of_length_eq_zero (by simpa using hlength)
  subst hrest
  have hvalue : [46].intercalate ([a, b, c, d].map decimal) =
      decimal a ++ 46 :: (decimal b ++ 46 :: (decimal c ++ 46 :: decimal d)) := by
    simp [List.intercalate]
  have ha := decimal_length (hless a (by simp))
  have hb := decimal_length (hless b (by simp))
  have hc := decimal_length (hless c (by simp))
  have hd := decimal_length (hless d (by simp))
  have hcount : (decimal a ++ 46 :: (decimal b ++ 46 :: (decimal c ++ 46 :: decimal d))).length =
      (decimal a).length + (decimal b).length + (decimal c).length + (decimal d).length + 3 := by
    simp only [List.length_append, List.length_cons]
    omega
  rw [hvalue]
  refine ⟨?_, by omega, ?_⟩
  · intro hnil
    rw [hnil, List.length_nil] at hcount
    omega
  · intro x hx
    simp only [List.mem_append, List.mem_cons] at hx
    rcases hx with hx | rfl | hx | rfl | hx | rfl | hx
    · exact .inr (decimal_digits a x hx)
    · exact .inl rfl
    · exact .inr (decimal_digits b x hx)
    · exact .inl rfl
    · exact .inr (decimal_digits c x hx)
    · exact .inl rfl
    · exact .inr (decimal_digits d x hx)

/-! ### The text -/

theorem overrideText_eq (server board : Text) :
    overrideText server board = (overrideVariables server board).flatMap line ++ [0] := by
  have hserver : text "mncos_tftp_serverip=" = text "mncos_tftp_serverip" ++ [61] := by decide
  have hdhcp : text "mncos_jtag_use_dhcp=yes" = text "mncos_jtag_use_dhcp" ++ [61] ++ text "yes" := by decide
  have haddress : text "ipaddr=" = text "ipaddr" ++ [61] := by decide
  have hstatic : text "mncos_jtag_use_dhcp=no" = text "mncos_jtag_use_dhcp" ++ [61] ++ text "no" := by decide
  unfold overrideText overrideVariables line
  rw [hserver, hdhcp, haddress, hstatic]
  by_cases hb : board = []
  · rw [if_pos hb, if_pos hb]
    simp only [List.flatMap_cons, List.flatMap_nil, List.append_nil, List.append_assoc]
  · rw [if_neg hb, if_neg hb]
    simp only [List.flatMap_cons, List.flatMap_nil, List.append_nil, List.append_assoc]

theorem overrideText_length (server board : Text) : (overrideText server board).length =
    if board = [] then server.length + 46 else server.length + board.length + 53 := by
  have hserver : (text "mncos_tftp_serverip=").length = 20 := rfl
  have hdhcp : (text "mncos_jtag_use_dhcp=yes").length = 23 := rfl
  have haddress : (text "ipaddr=").length = 7 := rfl
  have hstatic : (text "mncos_jtag_use_dhcp=no").length = 22 := rfl
  unfold overrideText
  by_cases hb : board = []
  · rw [if_pos hb, if_pos hb]
    simp only [List.length_append, List.length_singleton]
    omega
  · rw [if_neg hb, if_neg hb]
    simp only [List.length_append, List.length_singleton]
    omega

theorem ordinary_address {name : Text} (hname : name ≠ [] ∧ ∀ c ∈ name, c ∉ [0, 9, 10, 32, 35, 61])
    (h : Canonical value) : Ordinary (name, value) := by
  obtain ⟨hne, -, hchars⟩ := canonical_text h
  refine ⟨hname, hne, ?_⟩
  intro c hc
  rcases hchars c hc with rfl | hd
  · decide
  · simp only [isDigit, Bool.and_eq_true, decide_eq_true_eq] at hd
    simp only [List.mem_cons, List.not_mem_nil, or_false]
    omega

theorem variables_ordinary (hs : Canonical server) (hb : board = [] ∨ Canonical board) :
    ∀ v ∈ overrideVariables server board, Ordinary v := by
  have hserver := @ordinary_address server (text "mncos_tftp_serverip") (by decide) hs
  unfold overrideVariables
  intro v hv
  by_cases hempty : board = []
  · rw [if_pos hempty] at hv
    simp only [List.mem_cons, List.not_mem_nil, or_false] at hv
    rcases hv with rfl | rfl
    · exact hserver
    · exact ⟨by decide, by decide⟩
  · rw [if_neg hempty] at hv
    simp only [List.mem_cons, List.not_mem_nil, or_false] at hv
    rcases hv with rfl | rfl | rfl
    · exact hserver
    · exact ordinary_address (by decide) (hb.resolve_left hempty)
    · exact ⟨by decide, by decide⟩

theorem variables_distinct (server board : Text) : ((overrideVariables server board).map Prod.fst).Nodup ∧
    (overrideVariables server board).filter (fun v => v.1 ∈ IMPORTED) = overrideVariables server board := by
  have hnames : ([text "mncos_tftp_serverip", text "mncos_jtag_use_dhcp"] : List Text).Nodup ∧
      ([text "mncos_tftp_serverip", text "ipaddr", text "mncos_jtag_use_dhcp"] : List Text).Nodup := by decide
  have hin : text "mncos_tftp_serverip" ∈ IMPORTED ∧ text "ipaddr" ∈ IMPORTED ∧ text "mncos_jtag_use_dhcp" ∈ IMPORTED := by
    decide
  rw [List.filter_eq_self]
  unfold overrideVariables
  by_cases hempty : board = []
  · rw [if_pos hempty]
    refine ⟨hnames.1, ?_⟩
    intro v hv
    simp only [List.mem_cons, List.not_mem_nil, or_false] at hv
    rcases hv with rfl | rfl
    · exact decide_eq_true hin.1
    · exact decide_eq_true hin.2.2
  · rw [if_neg hempty]
    refine ⟨hnames.2, ?_⟩
    intro v hv
    simp only [List.mem_cons, List.not_mem_nil, or_false] at hv
    rcases hv with rfl | rfl | rfl
    · exact decide_eq_true hin.1
    · exact decide_eq_true hin.2.1
    · exact decide_eq_true hin.2.2

theorem envOverride_eq (hs : Canonical server) (hb : board = [] ∨ Canonical board) :
    envOverride server board = (overrideVariables server board).flatMap line ++ [0] := by
  have haddress : ∀ {value : Text}, Canonical value → ∀ c ∈ value, c < 256 := by
    intro value h c hc
    rcases (canonical_text h).2.2 c hc with rfl | hd
    · decide
    · simp only [isDigit, Bool.and_eq_true, decide_eq_true_eq] at hd
      omega
  have hboard : ∀ c ∈ board, c < 256 := by
    rcases hb with rfl | hb
    · simp
    · exact haddress hb
  have hfixed : ∀ s ∈ [text "mncos_tftp_serverip=", text "mncos_jtag_use_dhcp=yes", text "ipaddr=",
      text "mncos_jtag_use_dhcp=no", [10], [0]], ∀ c ∈ s, c < 256 := by decide
  have hall : ∀ c ∈ overrideText server board, c < 256 := by
    have hserver := haddress hs
    unfold overrideText
    by_cases hempty : board = []
    · rw [if_pos hempty]
      simp only [List.forall_mem_append]
      exact ⟨⟨⟨⟨hfixed _ (by simp), hserver⟩, hfixed _ (by simp)⟩, hfixed _ (by simp), hfixed _ (by simp)⟩,
        hfixed _ (by simp)⟩
    · rw [if_neg hempty]
      simp only [List.forall_mem_append]
      exact ⟨⟨⟨⟨hfixed _ (by simp), hserver⟩, hfixed _ (by simp)⟩, ⟨⟨hfixed _ (by simp), hboard⟩, hfixed _ (by simp)⟩,
        hfixed _ (by simp), hfixed _ (by simp)⟩, hfixed _ (by simp)⟩
  unfold envOverride
  rw [← overrideText_eq]
  have hsame : (overrideText server board).map (· % 256) = (overrideText server board).map id :=
    List.map_congr_left fun c hc => Nat.mod_eq_of_lt (hall c hc)
  rw [hsame, List.map_id]

/-! ### What arrives -/

/-- Of the addresses that `validate_ipv4` accepts exactly those arrive intact that are written with
digits only and without leading zeros in their octets. -/
theorem override_intact_iff (importer : Importer) (server board : Text)
    (hs : validateIpv4 (text "TFTP server IP") server = .ok ())
    (hb : board = [] ∨ validateIpv4 (text "board IP") board = .ok ()) :
    Intact importer server board ↔ Plain server ∧ (board = [] ∨ Plain board) := by
  constructor
  · intro h
    exact ⟨canonical_plain h.canonicalServer, h.canonicalBoard.imp_right canonical_plain⟩
  · rintro ⟨hserver, hboard⟩
    have hcs := plain_canonical hs hserver
    have hcb : board = [] ∨ Canonical board := by
      rcases hb with hb | hb
      · exact .inl hb
      · exact hboard.imp_right (plain_canonical hb)
    have htext := envOverride_eq hcs hcb
    have hlength : (envOverride server board).length ≤ 83 := by
      have hl := overrideText_length server board
      have h15 := (canonical_text hcs).2.1
      unfold envOverride
      rw [List.length_map, hl]
      split
      · omega
      · next hne =>
        have h15' := (canonical_text (hcb.resolve_left hne)).2.1
        omega
    obtain ⟨hdistinct, hfilter⟩ := variables_distinct server board
    refine ⟨hcs, hcb, hlength.trans (by decide), ?_⟩
    intro rest
    rw [htext, List.append_assoc]
    have hfits : ((overrideVariables server board).flatMap line).length < ENV_SIZE := by
      rw [htext, List.length_append, List.length_singleton] at hlength
      show _ < 256
      omega
    exact (importer.lines _ rest ENV_SIZE IMPORTED (variables_ordinary hcs hcb) hdistinct hfits).trans hfilter

namespace Sample

def variableOf (line : Text) : Option (Text × Text) :=
  match line.dropWhile (· ≠ 61) with
  | [] => none
  | _ :: value => some (line.takeWhile (· ≠ 61), value)

/-- The text up to a zero byte, line for line. -/
def importLines (memory : List ℕ) (size : ℕ) (names : List Text) : List (Text × Text) :=
  ((((memory.take size).takeWhile (· ≠ 0)).splitOn 10).filterMap variableOf).filter fun v => v.1 ∈ names

theorem variableOf_line {name value : Text} (h : 61 ∉ name) : variableOf (name ++ 61 :: value) = some (name, value) := by
  have hname : ∀ c ∈ name, decide (c ≠ 61) = true := by
    intro c hc
    refine decide_eq_true ?_
    rintro rfl
    exact h hc
  unfold variableOf
  rw [List.dropWhile_append_of_pos hname, List.takeWhile_append_of_pos hname]
  simp

theorem importLines_lines (vars : List (Text × Text)) (hvars : ∀ v ∈ vars, Ordinary v) :
    ((vars.flatMap line).splitOn 10).filterMap variableOf = vars := by
  induction vars with
  | nil => rfl
  | cons v vars ih =>
    obtain ⟨⟨-, hname⟩, -, hvalue⟩ := hvars v (List.mem_cons_self ..)
    have hsplit : (v :: vars).flatMap line = (v.1 ++ 61 :: v.2) ++ 10 :: vars.flatMap line := by
      simp [line]
    have hbreak : 10 ∉ v.1 ++ 61 :: v.2 := by
      intro hm
      rcases List.mem_append.mp hm with hm | hm
      · exact hname 10 hm (by decide)
      · rcases List.mem_cons.mp hm with hm | hm
        · cases hm
        · exact hvalue 10 hm (by decide)
    have hequals : 61 ∉ v.1 := fun hm => hname 61 hm (by decide)
    rw [hsplit, List.splitOn_append_cons_self_of_not_mem hbreak, List.filterMap_cons, variableOf_line hequals]
    simp only
    rw [ih fun w hw => hvars w (List.mem_cons_of_mem _ hw)]

theorem line_nonzero {v : Text × Text} (h : Ordinary v) : ∀ c ∈ line v, decide (c ≠ 0) = true := by
  obtain ⟨⟨-, hname⟩, -, hvalue⟩ := h
  intro c hc
  refine decide_eq_true ?_
  rintro rfl
  unfold line at hc
  simp only [List.mem_append, List.mem_singleton] at hc
  rcases hc with ((hc | hc) | hc) | hc
  · exact hname 0 hc (by decide)
  · cases hc
  · exact hvalue 0 hc (by decide)
  · cases hc

def importer : Importer where
  run := importLines
  lines := by
    intro vars rest size names hvars _ hfits
    have htext : ((vars.flatMap line ++ 0 :: rest).take size).takeWhile (· ≠ 0) = vars.flatMap line := by
      obtain ⟨more, hmore⟩ : ∃ more, (vars.flatMap line ++ 0 :: rest).take size = vars.flatMap line ++ 0 :: more := by
        rw [List.take_append, List.take_of_length_le (by omega)]
        obtain ⟨k, hk⟩ : ∃ k, size - (vars.flatMap line).length = k + 1 := ⟨size - (vars.flatMap line).length - 1, by omega⟩
        rw [hk]
        exact ⟨rest.take k, rfl⟩
      rw [hmore, List.takeWhile_append_of_pos]
      · simp
      · intro c hc
        obtain ⟨v, hv, hc⟩ := List.mem_flatMap.mp hc
        exact line_nonzero (hvars v hv) c hc
    unfold importLines
    rw [htext, importLines_lines vars hvars]

end Sample
open Monutchee.Jtag.Override.Sample

/-- A server and a board with ordinary addresses. -/
theorem override_intact_static : Intact importer (text "192.0.2.1") (text "192.0.2.20") := by
  apply (override_intact_iff importer (text "192.0.2.1") (text "192.0.2.20") (validate_ok_iff.mpr (by decide))
    (.inr (validate_ok_iff.mpr (by decide)))).mpr
  refine ⟨?_, .inr ?_⟩
  · unfold Plain
    decide
  · unfold Plain
    decide

/-- Accepted: a hexadecimal octet; a line feed behind an octet, which ends the value where it is imported;
and more blanks than the window holds. -/
theorem override_not_always_intact :
    (validateIpv4 (text "TFTP server IP") (text "0x7f.0.0.1") = .ok () ∧ ¬ Canonical (text "0x7f.0.0.1")) ∧
    (validateIpv4 (text "TFTP server IP") (text "10.0.0\n.1") = .ok () ∧
      importer.run (envOverride (text "10.0.0\n.1") []) ENV_SIZE IMPORTED =
        [(text "mncos_tftp_serverip", text "10.0.0"), (text "mncos_jtag_use_dhcp", text "yes")]) ∧
    (validateIpv4 (text "TFTP server IP") (List.replicate 220 32 ++ text "10.0.0.1") = .ok () ∧
      ENV_SIZE < (envOverride (List.replicate 220 32 ++ text "10.0.0.1") []).length) := by
  refine ⟨⟨validate_ok_iff.mpr (by decide), ?_⟩, ⟨validate_ok_iff.mpr (by decide), rfl⟩,
    validate_blanks 220 (validate_ok_iff.mpr (by decide)), ?_⟩
  · intro h
    have hplain := canonical_plain h
    unfold Plain at hplain
    exact absurd hplain (by decide)
  · unfold envOverride
    rw [List.length_map, overrideText_length, if_pos rfl, List.length_append, List.length_replicate]
    decide

end Monutchee.Jtag.Override
