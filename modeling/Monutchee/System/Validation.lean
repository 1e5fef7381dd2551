import Monutchee.Lib.Checked
import Monutchee.System.Data

/-!
# Validation of configurations (validation.cpp)

`validate` and what it calls, on bytes. The parsers keep the source's scanning:
`splitAt` is `find` followed by `substr`, and `fromChars` is `std::from_chars` into an
`unsigned`, which reads the longest run of digits and reports a value over 32 bits.
-/

namespace Monutchee.System.Validation

/-- check (validation.cpp:11-14). -/
def check (value : Bool) (message : String) : Except Error Unit :=
  if value then .ok () else .error ⟨.invalidArgument, ascii message⟩

/-! ### Scanning -/

/-- The text before the first c, and the text after it when there is one. -/
def splitAt (c : UInt8) : Bytes → Bytes × Option Bytes
  | [] => ([], none)
  | b :: bs =>
    if b = c then ([], some bs)
    else
      let (part, rest) := splitAt c bs
      (b :: part, rest)

def isDigit (c : UInt8) : Bool := 48 ≤ c && c ≤ 57

def isLower (c : UInt8) : Bool := 97 ≤ c && c ≤ 122

def isUpper (c : UInt8) : Bool := 65 ≤ c && c ≤ 90

/-- std::isalnum in the C locale. -/
def isAlnum (c : UInt8) : Bool := isDigit c || isLower c || isUpper c

/-- Value of a digit in a base of at most sixteen. -/
def digitValue (base : ℕ) (c : UInt8) : Option ℕ :=
  let v :=
    if isDigit c then some (c.toNat - 48)
    else if 97 ≤ c && c ≤ 102 then some (c.toNat - 87)
    else if 65 ≤ c && c ≤ 70 then some (c.toNat - 55)
    else none
  v.filter (· < base)

/-- `std::from_chars` into an `unsigned`: the value and the unread rest, or nothing
without a digit or beyond 32 bits. -/
def fromChars (base : ℕ) (s : Bytes) : Option (ℕ × Bytes) :=
  let digits := s.takeWhile fun c => (digitValue base c).isSome
  let value := digits.foldl (fun n c => n * base + (digitValue base c).getD 0) 0
  if digits.isEmpty || 2^32 ≤ value then none else some (value, s.drop digits.length)

/-- Whether sub occurs in a text (find(sub) != npos). -/
def contains (sub : Bytes) : Bytes → Bool
  | [] => sub.isEmpty
  | b :: bs => sub.isPrefixOf (b :: bs) || contains sub bs

/-! ### IPv4 addresses -/

/-- One decimal octet without a leading zero, the whole text. -/
def octet (part : Bytes) : Option ℕ :=
  match fromChars 10 part with
  | some (n, []) => if (part.length == 1 || part.head? != some 48) && n ≤ 255 then some n else none
  | _ => none

/-- The loop of ipv4 (validation.cpp:18-30), with the number of octets still due. -/
def ipv4Loop : ℕ → Bytes → BitVec 32 → Except Error (BitVec 32)
  | 0, _, result => .ok result
  | due + 1, rest, result => do
    let (part, after) := splitAt 46 rest
    match octet part with
    | none => .error ⟨.invalidArgument, ascii "invalid IPv4 address"⟩
    | some n =>
      check ((due == 0) == after.isNone) "invalid IPv4 address"
      ipv4Loop due (after.getD []) ((result <<< 8) ||| BitVec.ofNat 32 n)

/-- ipv4 (validation.cpp:15-34). -/
def ipv4 (text : Bytes) : Except Error (BitVec 32) := do
  let result ← ipv4Loop 4 text 0
  let first := result >>> 24
  check (first != 0 && first < 224 && first != 127) "IPv4 must be a unicast address"
  return result

/-! ### NTP servers -/

/-- decimalAddress (validation.cpp:38-50), with the number of parts still due. -/
def decimalAddress : ℕ → Bytes → Bool
  | 0, _ => true
  | due + 1, text =>
    let (part, after) := splitAt 46 text
    (octet part).isSome && ((due == 0) == after.isNone) && decimalAddress due (after.getD [])

/-- count (validation.cpp:56-73): the number of 16-bit words, or nothing for the
source's -1. The first argument bounds the words, a text of n bytes has no more. -/
def countWords (allowV4 : Bool) : ℕ → Bytes → Option ℕ
  | _, [] => some 0
  | 0, _ => none
  | fuel + 1, part =>
    let (word, after) := splitAt 58 part
    if word.contains 46 then
      if allowV4 && after.isNone && decimalAddress 4 word then some 2 else none
    else
      match fromChars 16 word with
      | some (_, []) =>
        if 4 < word.length then none
        else
          match after with
          | none => some 1
          | some [] => none
          | some rest => (countWords allowV4 fuel rest).map (· + 1)
      | _ => none

/-- The text before and after the first ::. -/
def splitCompression : Bytes → Option (Bytes × Bytes)
  | [] => none
  | [_] => none
  | a :: b :: bs =>
    if a = 58 ∧ b = 58 then some ([], bs)
    else (splitCompression (b :: bs)).map fun (left, right) => (a :: left, right)

/-- An IPv6 literal (validation.cpp:52-78). -/
def ipv6 (text : Bytes) : Bool :=
  match splitCompression text with
  | none => countWords true text.length text == some 8
  | some (left, right) =>
    !contains [58, 58] right &&
      match countWords false left.length left, countWords true right.length right with
      | some l, some r => l + r < 8
      | _, _ => false

/-- One label of a host name (validation.cpp:85-88). -/
def hostLabel (label : Bytes) : Bool :=
  !label.isEmpty && label.length ≤ 63 && label.head? != some 45 && label.getLast? != some 45 &&
    label.all fun c => isAlnum c || c == 45

/-- The loop over host labels (validation.cpp:82-91); the fuel bounds the labels. -/
def hostLabels : ℕ → Bytes → Bool
  | _, [] => false
  | 0, _ => false
  | fuel + 1, text =>
    let (label, after) := splitAt 46 text
    hostLabel label &&
      match after with
      | none => true
      | some rest => hostLabels fuel rest

/-- `validNtpServer` (`validation.cpp:36-93`). -/
def validNtpServer (server : Bytes) : Bool :=
  if server.isEmpty || 253 < server.length then false
  else if server.contains 58 then ipv6 server
  else if server.all fun c => isDigit c || c == 46 then decimalAddress 4 server
  else
    let text := if server.getLast? = some 46 then server.dropLast else server
    hostLabels text.length text

/-! ### Network and configuration -/

/-- validInterfaceName (validation.cpp:94-97). -/
def validInterfaceName (name : Bytes) : Bool :=
  !name.isEmpty && name.length < 16 && name.all fun c => isAlnum c || c == 95 || c == 45

/-- The static branch of `validateNetwork` (`validation.cpp:117-132`). -/
def validateStatic (c : NetworkConfig) : Except Error Unit := do
  check (1 ≤ c.prefixLength && c.prefixLength ≤ 32) "invalid IPv4 prefix"
  check (!c.preferredDefault || !c.gateway.isEmpty) "preferred static interface requires a gateway"
  let address ← ipv4 c.address
  let mask : BitVec 32 := 0xffffffff#32 <<< (32 - c.prefixLength.toNat)
  if c.prefixLength < 31 then
    check (address &&& ~~~mask != 0 && address &&& ~~~mask != ~~~mask)
      "network/broadcast address is not a host"
  if !c.gateway.isEmpty then
    let gateway ← ipv4 c.gateway
    check (gateway != address && gateway &&& mask == address &&& mask)
      "gateway must be a different address on the subnet"
    if c.prefixLength < 31 then
      check (gateway &&& ~~~mask != 0 && gateway &&& ~~~mask != ~~~mask)
        "gateway cannot be a network or broadcast address"

/-- One round of the loop of `validateNetwork` (`validation.cpp:103-135`). -/
def validateInterface (names : List Bytes) (c : NetworkConfig) : Except Error Unit := do
  check (validInterfaceName c.interface) "invalid interface name"
  check (!names.contains c.interface) "duplicate interface"
  check (c.dnsServers.length ≤ 4) "too many DNS servers"
  c.dnsServers.forM fun dns => do
    let _ ← ipv4 dns
  match c.mode with
  | .dhcp =>
    check (c.address.isEmpty && c.gateway.isEmpty) "DHCP cannot specify a static address or gateway"
  | .staticIpv4 => validateStatic c

def validateInterfaces : List Bytes → Network → Except Error Unit
  | _, [] => .ok ()
  | names, c :: cs => do
    validateInterface names c
    validateInterfaces (c.interface :: names) cs

/-- `validateNetwork` (`validation.cpp:98-136`). -/
def validateNetwork (configs : Network) : Except Error Unit := do
  check (configs.length ≤ 8) "too many network interfaces"
  check (configs.countP (·.preferredDefault) ≤ 1) "only one preferred default interface is allowed"
  validateInterfaces [] configs

def validateServers : List Bytes → List Bytes → Except Error Unit
  | _, [] => .ok ()
  | servers, s :: ss => do
    check (validNtpServer s) "invalid NTP server: use a hostname or IP address without a port"
    check (!servers.contains s) "duplicate NTP server"
    validateServers (s :: servers) ss

/-- `validate` (`validation.cpp:137-162`). -/
def validate (c : Configuration) : Except Error Unit := do
  let hostname := c.system.hostname
  check (!hostname.isEmpty && hostname.length ≤ 63 && hostname.head? != some 45 &&
    hostname.getLast? != some 45 && hostname.all fun x => isAlnum x || x == 45) "invalid hostname"
  let mode := c.time.synchronization
  check (mode == ascii "ntp" || mode == ascii "ptp" || mode == ascii "irig" || mode == ascii "local")
    "invalid time synchronization mode"
  let timezone := c.time.timezone
  check (!timezone.isEmpty && timezone.length ≤ 128 && timezone.head? != some 47 &&
    !contains (ascii "..") timezone &&
    timezone.all fun x => isAlnum x || x == 47 || x == 95 || x == 45 || x == 43) "invalid timezone"
  check ((c.time.ptpInterface.isEmpty && mode != ascii "ptp") ||
    validInterfaceName c.time.ptpInterface) "invalid PTP interface name"
  check (c.time.ntpServers.length ≤ 8) "at most eight NTP servers are allowed"
  validateServers [] c.time.ntpServers
  validateNetwork c.system.network

/-! ### What a successful check says -/

theorem isAlnum_range {c : UInt8} (h : isAlnum c = true) : 48 ≤ c.toNat ∧ c.toNat ≤ 122 := by
  unfold isAlnum isDigit isLower isUpper at h
  simp only [Bool.or_eq_true, Bool.and_eq_true, decide_eq_true_eq, UInt8.le_iff_toNat_le] at h
  have h48 : (48 : UInt8).toNat = 48 := rfl
  have h57 : (57 : UInt8).toNat = 57 := rfl
  have h65 : (65 : UInt8).toNat = 65 := rfl
  have h90 : (90 : UInt8).toNat = 90 := rfl
  have h97 : (97 : UInt8).toNat = 97 := rfl
  have h122 : (122 : UInt8).toNat = 122 := rfl
  omega

/-- A valid interface name is short and printable. -/
theorem interfaceName_plain {name : Bytes} (h : validInterfaceName name = true) :
    name.length < 16 ∧ ∀ c ∈ name, 45 ≤ c.toNat ∧ c.toNat ≤ 122 := by
  unfold validInterfaceName at h
  simp only [Bool.and_eq_true, decide_eq_true_eq, List.all_eq_true, Bool.or_eq_true,
    beq_iff_eq] at h
  refine ⟨h.1.2, ?_⟩
  intro c hc
  obtain (ha | rfl) | rfl := h.2 c hc
  · have hr := isAlnum_range ha
    omega
  · decide
  · decide

theorem check_ok {b : Bool} {message : String} {u : Unit} :
    check b message = .ok u ↔ b = true := by
  cases b with
  | true => exact ⟨fun _ => rfl, fun _ => rfl⟩
  | false => simp [check]

theorem then_ok {β : Type} {x : Except Error Unit} {f : Unit → Except Error β} {b : β} :
    (x >>= f) = .ok b ↔ x = .ok () ∧ f () = .ok b := by
  cases x with
  | ok a => simp [bind, Except.bind]
  | error e => simp [bind, Except.bind]

/-- Each server of an accepted list is valid by itself. -/
theorem validateServers_valid {seen servers : List Bytes} (h : validateServers seen servers = .ok ()) :
    ∀ server ∈ servers, validNtpServer server = true := by
  induction servers generalizing seen with
  | nil => simp
  | cons x xs ih =>
    rw [validateServers] at h
    obtain ⟨hx, h⟩ := then_ok.mp h
    obtain ⟨-, h⟩ := then_ok.mp h
    intro server hserver
    cases List.mem_cons.mp hserver with
    | inl hhead => exact hhead ▸ check_ok.mp hx
    | inr htail => exact ih h server htail

def validHostname (hostname : Bytes) : Bool :=
  !hostname.isEmpty && hostname.length ≤ 63 && hostname.head? != some 45 &&
    hostname.getLast? != some 45 && hostname.all fun x => isAlnum x || x == 45

def validMode (mode : Bytes) : Bool :=
  mode == ascii "ntp" || mode == ascii "ptp" || mode == ascii "irig" || mode == ascii "local"

def validTimezone (timezone : Bytes) : Bool :=
  !timezone.isEmpty && timezone.length ≤ 128 && timezone.head? != some 47 &&
    !contains (ascii "..") timezone &&
    timezone.all fun x => isAlnum x || x == 47 || x == 95 || x == 45 || x == 43

/-- What `validate` asks of the time preferences. -/
structure ValidTime (t : TimePreferences) : Prop where
  mode : validMode t.synchronization = true
  timezone : validTimezone t.timezone = true
  ptp : (t.ptpInterface.isEmpty = true ∧ t.synchronization ≠ ascii "ptp") ∨
    validInterfaceName t.ptpInterface = true
  count : t.ntpServers.length ≤ 8
  servers : validateServers [] t.ntpServers = .ok ()

/-- A configuration is valid when its host name, its time preferences and its network are. -/
theorem validate_ok {c : Configuration} :
    validate c = .ok () ↔
      validHostname c.system.hostname = true ∧ ValidTime c.time ∧
        validateNetwork c.system.network = .ok () := by
  simp only [validate, then_ok, check_ok]
  constructor
  · rintro ⟨hh, hm, ht, hp, hc, hs, hn⟩
    exact ⟨hh, ⟨hm, ht, by simpa [Bool.or_eq_true] using hp, by simpa using hc, hs⟩, hn⟩
  · rintro ⟨hh, ⟨hm, ht, hp, hc, hs⟩, hn⟩
    exact ⟨hh, hm, ht, by simpa [Bool.or_eq_true] using hp, by simpa using hc, hs, hn⟩

/-! ### A valid network, interface by interface -/

theorem validateInterfaces_cons {names : List Bytes} {c : NetworkConfig} {cs : Network} :
    validateInterfaces names (c :: cs) = .ok () ↔
      validateInterface names c = .ok () ∧ validateInterfaces (c.interface :: names) cs = .ok () :=
  then_ok

theorem validateInterface_name {names : List Bytes} {c : NetworkConfig}
    (h : validateInterface names c = .ok ()) :
    validInterfaceName c.interface = true ∧ c.interface ∉ names := by
  unfold validateInterface at h
  rw [then_ok, check_ok, then_ok, check_ok] at h
  refine ⟨h.1, ?_⟩
  intro hn
  have := h.2.1
  rw [List.contains_iff_mem.mpr hn] at this
  simp at this

/-- The other interfaces do not matter to one interface but for its name. -/
theorem validateInterface_alone {names : List Bytes} {c : NetworkConfig}
    (h : validateInterface names c = .ok ()) : validateInterface [] c = .ok () := by
  unfold validateInterface at h ⊢
  rw [then_ok, then_ok] at h ⊢
  exact ⟨h.1, rfl, h.2.2⟩

theorem validateInterfaces_mem {names : List Bytes} {cs : Network}
    (h : validateInterfaces names cs = .ok ()) :
    (∀ c ∈ cs, validInterfaceName c.interface = true ∧ validateInterface [] c = .ok ()) ∧
      (cs.map (·.interface)).Nodup ∧ ∀ c ∈ cs, c.interface ∉ names := by
  induction cs generalizing names with
  | nil => simp
  | cons c cs ih =>
    rw [validateInterfaces_cons] at h
    obtain ⟨hc, hcs⟩ := h
    obtain ⟨hname, hnot⟩ := validateInterface_name hc
    obtain ⟨hall, hnodup, hnames⟩ := ih hcs
    refine ⟨?_, ?_, ?_⟩
    · intro x hx
      rcases List.mem_cons.mp hx with rfl | hx
      · exact ⟨hname, validateInterface_alone hc⟩
      · exact hall x hx
    · rw [List.map_cons, List.nodup_cons]
      refine ⟨?_, hnodup⟩
      intro hx
      obtain ⟨x, hx, he⟩ := List.mem_map.mp hx
      exact hnames x hx (by rw [he]; exact List.mem_cons_self ..)
    · intro x hx
      rcases List.mem_cons.mp hx with rfl | hx
      · exact hnot
      · exact fun hn => hnames x hx (List.mem_cons_of_mem _ hn)

theorem validateNetwork_ok {cs : Network} :
    validateNetwork cs = .ok () ↔
      cs.length ≤ 8 ∧ cs.countP (·.preferredDefault) ≤ 1 ∧ validateInterfaces [] cs = .ok () := by
  unfold validateNetwork
  rw [then_ok, check_ok, then_ok, check_ok]
  simp

theorem validateNetwork_one {cs : Network} (h : validateNetwork cs = .ok ()) {c : NetworkConfig}
    (hc : c ∈ cs) : validateNetwork [c] = .ok () := by
  have hcs := (validateInterfaces_mem (validateNetwork_ok.mp h).2.2).1 c hc
  rw [validateNetwork_ok, validateInterfaces_cons]
  refine ⟨by simp, ?_, hcs.2, rfl⟩
  rw [List.countP_singleton]
  split
  · exact Nat.le_refl 1
  · exact Nat.zero_le 1

-- The configurations of the backend tests: one DHCP link, and a static address on it.
example : validate { system := { network := [{ interface := ascii "end0" }] } } = .ok () := by
  decide
example : validateNetwork
    [{ interface := ascii "end0", mode := .staticIpv4, address := ascii "10.0.0.2",
       gateway := ascii "10.0.0.1", preferredDefault := true }] = .ok () := by
  decide

end Monutchee.System.Validation
