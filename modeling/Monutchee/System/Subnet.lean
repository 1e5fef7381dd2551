import Monutchee.Lib.Mask
import Monutchee.System.Grammar

/-!
# Static networks as arithmetic (validation.cpp:15-34, 98-136)

`ipv4` packs four octets into a word of 32 bits, and `validateNetwork` compares words under a
mask. Here an address is the number of its octets, a subnet of prefix `p` is a block of
`2^(32-p)` numbers, and the conditions are those of division by the size of the block.
-/

namespace Monutchee.System
open Lib Validation

/-! ### Addresses -/

/-- A canonical unicast address and its number. -/
def UnicastQuad (text : Bytes) (a : ℕ) : Prop :=
  ∃ w x y z : ℕ, ((1 ≤ w ∧ w ≤ 126) ∨ (128 ≤ w ∧ w ≤ 223)) ∧ x ≤ 255 ∧ y ≤ 255 ∧ z ≤ 255 ∧
    text = joined 46 [decimal w, decimal x, decimal y, decimal z] ∧
    a = ((w * 256 + x) * 256 + y) * 256 + z

/-- The word that the loop of ipv4 makes of octets. -/
def pack (result : BitVec 32) (os : List ℕ) : BitVec 32 :=
  os.foldl (fun r n => (r <<< 8) ||| BitVec.ofNat 32 n) result

theorem ipv4Loop_octets (due : ℕ) (text : Bytes) (result : BitVec 32) :
    ipv4Loop due text result =
      match octets due text with
      | none => .error ⟨.invalidArgument, ascii "invalid IPv4 address"⟩
      | some os => .ok (pack result os) := by
  induction due generalizing text result with
  | zero => rfl
  | succ due ih =>
    rw [ipv4Loop, octets]
    rcases splitAt 46 text with ⟨part, after⟩
    dsimp only
    cases octet part with
    | none => rfl
    | some n =>
      by_cases hlast : ((due == 0) == after.isNone) = true
      · rw [Option.bind_some, if_pos hlast]
        simp only [check, hlast, if_true]
        rw [show ∀ x : Except Error (BitVec 32), ((Except.ok () : Except Error Unit) >>= fun _ => x) = x
          from fun _ => rfl, ih]
        cases octets due (after.getD []) with
        | none => rfl
        | some os => rfl
      · rw [Option.bind_some, if_neg hlast]
        simp only [check, hlast]
        rfl

theorem pack_toNat {w x y z : ℕ} (hw : w ≤ 255) (hx : x ≤ 255) (hy : y ≤ 255) (hz : z ≤ 255) :
    (pack 0 [w, x, y, z]).toNat = ((w * 256 + x) * 256 + y) * 256 + z := by
  have h₁ := shift_or_toNat (w := 32) (k := 8) (n := w) 0 (by omega) (by simp; omega)
  have h₀ : (0 : BitVec 32).toNat = 0 := rfl
  rw [h₀] at h₁
  have h₂ := shift_or_toNat (w := 32) (k := 8) (n := x) _ (by omega) (by rw [h₁]; omega)
  have h₃ := shift_or_toNat (w := 32) (k := 8) (n := y) _ (by omega) (by rw [h₂, h₁]; omega)
  have h₄ := shift_or_toNat (w := 32) (k := 8) (n := z) _ (by omega) (by rw [h₃, h₂, h₁]; omega)
  simp only [pack, List.foldl_cons, List.foldl_nil]
  rw [h₄, h₃, h₂, h₁]
  omega

/-- The last test of ipv4, on the first octet. -/
theorem unicast_first (r : BitVec 32) :
    (r >>> 24 != 0 && r >>> 24 < 224 && r >>> 24 != 127) = true ↔
      (1 ≤ r.toNat / 2^24 ∧ r.toNat / 2^24 ≤ 126) ∨
        (128 ≤ r.toNat / 2^24 ∧ r.toNat / 2^24 ≤ 223) := by
  have hfirst : (r >>> 24).toNat = r.toNat / 2^24 := by
    rw [BitVec.toNat_ushiftRight, Nat.shiftRight_eq_div_pow]
  have h₀ : (0 : BitVec 32).toNat = 0 := rfl
  have h₁ : (224 : BitVec 32).toNat = 224 := rfl
  have h₂ : (127 : BitVec 32).toNat = 127 := rfl
  simp only [Bool.and_eq_true, bne_iff_ne, ne_eq, ← BitVec.toNat_inj, decide_eq_true_eq,
    BitVec.lt_def, hfirst, h₀, h₁, h₂]
  omega

/-- `ipv4` reads the canonical unicast addresses, and gives their numbers. -/
theorem ipv4_iff {text : Bytes} {r : BitVec 32} :
    ipv4 text = .ok r ↔ UnicastQuad text r.toNat := by
  have hloop : ipv4 text = .ok r ↔ ∃ os, octets 4 text = some os ∧
      r = pack 0 os ∧
      (r >>> 24 != 0 && r >>> 24 < 224 && r >>> 24 != 127) = true := by
    unfold ipv4
    rw [bind_ok, ipv4Loop_octets]
    cases octets 4 text with
    | none => simp
    | some os =>
      simp only [Except.ok.injEq, exists_eq_left', then_ok, check_ok, Option.some.injEq]
      constructor
      · rintro ⟨hfirst, hr⟩
        have hr : _ = r := Except.ok.inj hr
        rw [hr] at hfirst
        exact ⟨hr.symm, hfirst⟩
      · rintro ⟨hr, hfirst⟩
        rw [← hr]
        exact ⟨hfirst, rfl⟩
  rw [hloop, unicast_first]
  constructor
  · rintro ⟨os, ho, hr, hfirst⟩
    have hlen := octets_length ho
    obtain ⟨-, hsmall, htext⟩ := (octets_iff (by rintro rfl; simp at hlen)).mp ho
    obtain ⟨w, x, y, z, rfl⟩ := List.length_eq_four.mp hlen
    simp only [List.mem_cons, List.not_mem_nil, or_false, forall_eq_or_imp, forall_eq] at hsmall
    obtain ⟨hw, hx, hy, hz⟩ := hsmall
    have hnum := pack_toNat hw hx hy hz
    rw [← hr] at hnum
    have hquot : r.toNat / 2^24 = w := by omega
    rw [hquot] at hfirst
    exact ⟨w, x, y, z, hfirst, hx, hy, hz, htext, hnum⟩
  · rintro ⟨w, x, y, z, hw, hx, hy, hz, htext, hnum⟩
    have hpack := pack_toNat (w := w) (by omega) hx hy hz
    have hquot : r.toNat / 2^24 = w := by omega
    refine ⟨[w, x, y, z], ?_, ?_, by rw [hquot]; exact hw⟩
    · rw [octets_iff (by simp)]
      refine ⟨rfl, ?_, htext⟩
      simp only [List.mem_cons, List.not_mem_nil, or_false, forall_eq_or_imp, forall_eq]
      exact ⟨by omega, hx, hy, hz⟩
    · apply BitVec.eq_of_toNat_eq
      rw [hpack, hnum]

theorem unicastQuad_lt {text : Bytes} {a : ℕ} (h : UnicastQuad text a) : a < 2^32 := by
  obtain ⟨w, x, y, z, hw, hx, hy, hz, -, rfl⟩ := h
  omega

/-- An address is some word. -/
theorem ipv4_exists {text : Bytes} : (∃ r, ipv4 text = .ok r) ↔ ∃ a, UnicastQuad text a := by
  constructor
  · rintro ⟨r, hr⟩
    exact ⟨r.toNat, ipv4_iff.mp hr⟩
  · rintro ⟨a, ha⟩
    refine ⟨BitVec.ofNat 32 a, ipv4_iff.mpr ?_⟩
    rwa [BitVec.toNat_ofNat, Nat.mod_eq_of_lt (unicastQuad_lt ha)]

/-! ### Subnets -/

/-- The mask of validateNetwork for a prefix. -/
def prefixMask (p : ℕ) : BitVec 32 := 0xffffffff#32 <<< (32 - p)

theorem prefixMask_eq (p : ℕ) : prefixMask p = mask 32 (32 - p) := by
  have hones : (0xffffffff#32 : BitVec 32) = BitVec.allOnes 32 := by decide
  rw [prefixMask, hones]
  rfl

/-- Neither the first number of its block nor the last. -/
def IsHost (p a : ℕ) : Prop := 0 < a % 2^(32 - p) ∧ a % 2^(32 - p) < 2^(32 - p) - 1

/-- What a static entry must be, with `2^(32-p)` numbers in a subnet. -/
structure StaticEntry (c : NetworkConfig) : Prop where
  prefixRange : 1 ≤ c.prefixLength.toNat ∧ c.prefixLength.toNat ≤ 32
  route : c.preferredDefault = true → c.gateway ≠ []
  addresses : ∃ a, UnicastQuad c.address a ∧ (c.prefixLength.toNat < 31 → IsHost c.prefixLength.toNat a) ∧
    (c.gateway ≠ [] → ∃ g, UnicastQuad c.gateway g ∧ g ≠ a ∧
      g / 2^(32 - c.prefixLength.toNat) = a / 2^(32 - c.prefixLength.toNat) ∧
      (c.prefixLength.toNat < 31 → IsHost c.prefixLength.toNat g))

theorem host_check (p : ℕ) (a : BitVec 32) :
    (a &&& ~~~prefixMask p != 0 && a &&& ~~~prefixMask p != ~~~prefixMask p) = true ↔
      IsHost p a.toNat := by
  have hle : 32 - p ≤ 32 := Nat.sub_le 32 p
  have hpos : 0 < 2^(32 - p) := Nat.two_pow_pos (32 - p)
  have hmod := Nat.mod_lt a.toNat hpos
  have h₀ : (0 : BitVec 32).toNat = 0 := rfl
  rw [prefixMask_eq]
  simp only [Bool.and_eq_true, bne_iff_ne, ne_eq, ← BitVec.toNat_inj, and_not_mask hle,
    not_mask_toNat hle, h₀, IsHost]
  omega

theorem subnet_check (p : ℕ) (g a : BitVec 32) :
    (g != a && g &&& prefixMask p == a &&& prefixMask p) = true ↔
      g.toNat ≠ a.toNat ∧ g.toNat / 2^(32 - p) = a.toNat / 2^(32 - p) := by
  rw [prefixMask_eq, Bool.and_eq_true, bne_iff_ne, beq_iff_eq, and_mask_eq_iff, ne_eq, ne_eq,
    ← BitVec.toNat_inj]

/-- A test that only some inputs need. -/
theorem if_check_ok {P : Prop} [Decidable P] {b : Bool} {message : String} :
    (if P then check b message else pure ()) = .ok () ↔ (P → b = true) := by
  by_cases hp : P
  · rw [if_pos hp, check_ok]
    exact ⟨fun h _ => h, fun h => h hp⟩
  · rw [if_neg hp]
    exact ⟨fun _ h => absurd h hp, fun _ => rfl⟩

/-- The rest of the static branch, from the gateway on. -/
theorem gateway_iff {c : NetworkConfig} {a : BitVec 32} :
    ((if (!c.gateway.isEmpty) = true then do
        let gateway ← ipv4 c.gateway
        check (gateway != a && gateway &&& prefixMask c.prefixLength.toNat ==
          a &&& prefixMask c.prefixLength.toNat) "gateway must be a different address on the subnet"
        if c.prefixLength < 31 then
          check (gateway &&& ~~~prefixMask c.prefixLength.toNat != 0 &&
            gateway &&& ~~~prefixMask c.prefixLength.toNat != ~~~prefixMask c.prefixLength.toNat)
            "gateway cannot be a network or broadcast address"
      else pure ()) : Except Error Unit) = .ok () ↔
    (c.gateway ≠ [] → ∃ g, UnicastQuad c.gateway g ∧ g ≠ a.toNat ∧
      g / 2^(32 - c.prefixLength.toNat) = a.toNat / 2^(32 - c.prefixLength.toNat) ∧
      (c.prefixLength.toNat < 31 → IsHost c.prefixLength.toNat g)) := by
  have h31 : c.prefixLength < 31 ↔ c.prefixLength.toNat < 31 := UInt8.lt_iff_toNat_lt
  by_cases hg : c.gateway = []
  · simp [hg]
  · have hne : (!c.gateway.isEmpty) = true := by simpa using hg
    rw [if_pos hne, bind_ok]
    simp only [then_ok, check_ok, if_check_ok, subnet_check, host_check, h31]
    constructor
    · rintro ⟨g, hr, ⟨hd, hs⟩, hh⟩ -
      exact ⟨g.toNat, ipv4_iff.mp hr, hd, hs, hh⟩
    · intro h
      obtain ⟨g, hr, hd, hs, hh⟩ := h hg
      have hword : (BitVec.ofNat 32 g).toNat = g := by
        rw [BitVec.toNat_ofNat]
        exact Nat.mod_eq_of_lt (unicastQuad_lt hr)
      refine ⟨BitVec.ofNat 32 g, ipv4_iff.mpr ?_, ⟨?_, ?_⟩, ?_⟩
      · rwa [hword]
      · rwa [hword]
      · rwa [hword]
      · rwa [hword]

/-- The static branch accepts the entries whose addresses lie in one subnet as they should. -/
theorem validateStatic_iff {c : NetworkConfig} : validateStatic c = .ok () ↔ StaticEntry c := by
  have h31 : c.prefixLength < 31 ↔ c.prefixLength.toNat < 31 := UInt8.lt_iff_toNat_lt
  have hrange : (decide (1 ≤ c.prefixLength) && decide (c.prefixLength ≤ 32)) = true ↔
      1 ≤ c.prefixLength.toNat ∧ c.prefixLength.toNat ≤ 32 := by
    simp only [Bool.and_eq_true, decide_eq_true_eq, UInt8.le_iff_toNat_le]
    rfl
  have hroute : (!c.preferredDefault || !c.gateway.isEmpty) = true ↔
      (c.preferredDefault = true → c.gateway ≠ []) := by
    cases c.preferredDefault
    · simp
    · simp
  have hrest : validateStatic c = .ok () ↔
      (1 ≤ c.prefixLength.toNat ∧ c.prefixLength.toNat ≤ 32) ∧
      (c.preferredDefault = true → c.gateway ≠ []) ∧
      ∃ a, ipv4 c.address = .ok a ∧
        (c.prefixLength.toNat < 31 → IsHost c.prefixLength.toNat a.toNat) ∧
        (c.gateway ≠ [] → ∃ g, UnicastQuad c.gateway g ∧ g ≠ a.toNat ∧
          g / 2^(32 - c.prefixLength.toNat) = a.toNat / 2^(32 - c.prefixLength.toNat) ∧
          (c.prefixLength.toNat < 31 → IsHost c.prefixLength.toNat g)) := by
    unfold validateStatic
    rw [then_ok, check_ok, then_ok, check_ok, bind_ok, hrange, hroute]
    refine and_congr_right fun _ => and_congr_right fun _ => exists_congr fun a =>
      and_congr_right fun _ => ?_
    rw [← gateway_iff (c := c) (a := a), ← host_check, ← h31]
    by_cases hp : c.prefixLength < 31
    · rw [if_pos hp]
      refine then_ok.trans ?_
      rw [check_ok]
      exact and_congr_left fun _ => ⟨fun h _ => h, fun h => h hp⟩
    · rw [if_neg hp]
      exact ⟨fun h => ⟨fun h' => absurd h' hp, h⟩, fun h => h.2⟩
  rw [hrest]
  constructor
  · rintro ⟨hp, hr, a, ha, hh, hg⟩
    exact ⟨hp, hr, a.toNat, ipv4_iff.mp ha, hh, hg⟩
  · rintro ⟨hp, hr, a, ha, hh, hg⟩
    have hword : (BitVec.ofNat 32 a).toNat = a := by
      rw [BitVec.toNat_ofNat]
      exact Nat.mod_eq_of_lt (unicastQuad_lt ha)
    refine ⟨hp, hr, BitVec.ofNat 32 a, ipv4_iff.mpr ?_, ?_, ?_⟩
    · rwa [hword]
    · rwa [hword]
    · rwa [hword]

/-- Outside 1..32 the branch stops at its first test, before the shift by `32 - prefix_length`. -/
theorem validateStatic_outside {c : NetworkConfig}
    (h : ¬ (1 ≤ c.prefixLength.toNat ∧ c.prefixLength.toNat ≤ 32)) :
    validateStatic c = .error ⟨.invalidArgument, ascii "invalid IPv4 prefix"⟩ := by
  have hrange : (decide (1 ≤ c.prefixLength) && decide (c.prefixLength ≤ 32)) = false := by
    rw [Bool.eq_false_iff]
    intro ht
    simp only [Bool.and_eq_true, decide_eq_true_eq, UInt8.le_iff_toNat_le] at ht
    exact h ht
  unfold validateStatic
  rw [hrange]
  rfl

/-! ### Lists of interfaces -/

/-- A name of 1 to 15 letters, digits, underscores and hyphens. -/
structure InterfaceName (name : Bytes) : Prop where
  length : 1 ≤ name.length ∧ name.length ≤ 15
  bytes : ∀ c ∈ name, isLetter c = true ∨ isDigit c = true ∨ c = 95 ∨ c = 45

/-- What one entry must be by itself. -/
structure Entry.Accepted (c : NetworkConfig) : Prop where
  name : InterfaceName c.interface
  servers : c.dnsServers.length ≤ 4 ∧ ∀ dns ∈ c.dnsServers, ∃ a, UnicastQuad dns a
  dhcp : c.mode = .dhcp → c.address = [] ∧ c.gateway = []
  static : c.mode = .staticIpv4 → StaticEntry c

/-- What a list of entries must be. -/
structure Network.Accepted (cs : Network) : Prop where
  count : cs.length ≤ 8
  preferred : cs.countP (·.preferredDefault) ≤ 1
  names : (cs.map (·.interface)).Nodup
  entries : ∀ c ∈ cs, Entry.Accepted c

theorem interfaceName_iff {name : Bytes} : validInterfaceName name = true ↔ InterfaceName name := by
  have hbyte : ∀ c : UInt8, (isAlnum c || c == 95 || c == 45) = true ↔
      (isLetter c = true ∨ isDigit c = true ∨ c = 95 ∨ c = 45) := by
    intro c
    simp only [isAlnum, isLetter, Bool.or_eq_true, beq_iff_eq]
    tauto
  simp only [validInterfaceName, Bool.and_eq_true, Bool.not_eq_true', List.isEmpty_eq_false_iff,
    decide_eq_true_eq, List.all_eq_true, hbyte]
  constructor
  · rintro ⟨⟨hne, hlen⟩, hb⟩
    have hpos := List.length_pos_iff.mpr hne
    exact ⟨⟨hpos, by omega⟩, hb⟩
  · rintro ⟨⟨hpos, hlen⟩, hb⟩
    exact ⟨⟨List.length_pos_iff.mp hpos, by omega⟩, hb⟩

/-- What the mode asks of an entry. -/
def checkMode (c : NetworkConfig) : Except Error Unit :=
  match c.mode with
  | .dhcp => check (c.address.isEmpty && c.gateway.isEmpty) "DHCP cannot specify a static address or gateway"
  | .staticIpv4 => validateStatic c

theorem validateInterface_iff {names : List Bytes} {c : NetworkConfig} :
    validateInterface names c = .ok () ↔ Entry.Accepted c ∧ c.interface ∉ names := by
  have hdns : (c.dnsServers.forM fun dns => do
      let _ ← ipv4 dns) = .ok () ↔ ∀ dns ∈ c.dnsServers, ∃ a, UnicastQuad dns a := by
    rw [forM_ok]
    simp only [← ipv4_exists]
    refine forall₂_congr fun dns _ => ?_
    cases ipv4 dns with
    | ok r => simp [bind, Except.bind, pure, Except.pure]
    | error e => simp [bind, Except.bind]
  have hmode : checkMode c = .ok () ↔
      (c.mode = .dhcp → c.address = [] ∧ c.gateway = []) ∧ (c.mode = .staticIpv4 → StaticEntry c) := by
    unfold checkMode
    cases c.mode with
    | dhcp => simp [check_ok]
    | staticIpv4 => simp [validateStatic_iff]
  unfold validateInterface
  rw [then_ok, check_ok, then_ok, check_ok, then_ok, check_ok, then_ok, hdns, interfaceName_iff]
  rw [decide_eq_true_eq, Bool.not_eq_true', ← Bool.not_eq_true, List.contains_iff_mem]
  constructor
  · rintro ⟨hname, hnew, hfour, hservers, hm⟩
    obtain ⟨hd, hs⟩ := hmode.mp hm
    exact ⟨⟨hname, ⟨hfour, hservers⟩, hd, hs⟩, hnew⟩
  · rintro ⟨⟨hname, ⟨hfour, hservers⟩, hd, hs⟩, hnew⟩
    exact ⟨hname, hnew, hfour, hservers, hmode.mpr ⟨hd, hs⟩⟩

/-- The loop over the entries; the invariant is the set of names already seen. -/
theorem validateInterfaces_iff {names : List Bytes} {cs : Network} :
    validateInterfaces names cs = .ok () ↔
      (∀ c ∈ cs, Entry.Accepted c) ∧ (cs.map (·.interface)).Nodup ∧
        ∀ c ∈ cs, c.interface ∉ names := by
  induction cs generalizing names with
  | nil => simp [validateInterfaces]
  | cons c cs ih =>
    rw [validateInterfaces_cons, validateInterface_iff, ih, List.map_cons, List.nodup_cons,
      List.forall_mem_cons, List.forall_mem_cons]
    simp only [List.mem_cons, List.mem_map, not_or, not_exists, not_and]
    constructor
    · rintro ⟨⟨hc, hnew⟩, hall, hnodup, hnames⟩
      exact ⟨⟨hc, hall⟩, ⟨fun x hx => (hnames x hx).1, hnodup⟩, hnew, fun x hx => (hnames x hx).2⟩
    · rintro ⟨⟨hc, hall⟩, ⟨hfresh, hnodup⟩, hnew, hnames⟩
      exact ⟨⟨hc, hnew⟩, hall, hnodup, fun x hx => ⟨hfresh x hx, hnames x hx⟩⟩

theorem validateNetwork_iff {cs : Network} : validateNetwork cs = .ok () ↔ Network.Accepted cs := by
  rw [validateNetwork_ok, validateInterfaces_iff]
  constructor
  · rintro ⟨hcount, hpreferred, hall, hnodup, -⟩
    exact ⟨hcount, hpreferred, hnodup, hall⟩
  · rintro ⟨hcount, hpreferred, hnodup, hall⟩
    exact ⟨hcount, hpreferred, hall, hnodup, by simp⟩

/-- `validateNetwork` accepts exactly the lists that meet the arithmetic conditions; a static entry
whose prefix is not in 1..32 stops before the shift; and for every prefix in 1..32 the shift is
by less than 32 and the mask tells two subnets apart. -/
theorem network_arithmetic :
    (∀ cs : Network, validateNetwork cs = .ok () ↔ Network.Accepted cs) ∧
    (∀ c : NetworkConfig, ¬ (1 ≤ c.prefixLength.toNat ∧ c.prefixLength.toNat ≤ 32) →
      validateStatic c = .error ⟨.invalidArgument, ascii "invalid IPv4 prefix"⟩) ∧
    ∀ p, 1 ≤ p → p ≤ 32 → 32 - p < 32 ∧ ∀ a b : BitVec 32,
      (a &&& prefixMask p = b &&& prefixMask p ↔
        a.toNat / 2^(32 - p) = b.toNat / 2^(32 - p)) ∧
      (a &&& ~~~prefixMask p).toNat = a.toNat % 2^(32 - p) := by
  refine ⟨fun _ => validateNetwork_iff, fun c h => validateStatic_outside h, ?_⟩
  intro p h₁ h₂
  refine ⟨by omega, fun a b => ?_⟩
  rw [prefixMask_eq]
  exact ⟨and_mask_eq_iff, and_not_mask (Nat.sub_le 32 p) a⟩

/-- A static interface on a network of two addresses, and one whose prefix is 0. -/
theorem network_arithmetic_link :
    Network.Accepted [{ interface := ascii "end0", mode := .staticIpv4, address := ascii "10.0.0.2"
                        prefixLength := 31, gateway := ascii "10.0.0.3", preferredDefault := true }] ∧
    validateStatic { prefixLength := 0 } = .error ⟨.invalidArgument, ascii "invalid IPv4 prefix"⟩ ∧
    (10#32 &&& prefixMask 31 = 11#32 &&& prefixMask 31 ↔
      (10#32).toNat / 2^(32 - 31) = (11#32).toNat / 2^(32 - 31)) := by
  refine ⟨(network_arithmetic.1 _).mp (by decide), network_arithmetic.2.1 _ (by decide), ?_⟩
  exact ((network_arithmetic.2.2 31 (by decide) (by decide)).2 _ _).1

end Monutchee.System
