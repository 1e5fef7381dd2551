import Monutchee.System.Audit
import Monutchee.System.Grammar

/-!
# The text of the journal (storage.cpp:163-177, 210-219, protocol.hpp:32-47)

`persist` writes the state as JSON and the constructor reads it back under the limit of
65536 bytes. The limits that validation puts on every list and text of the state, and the
limits on callers and ids, keep the text far below that. How Glaze writes a string and what it
reads from a text is given by a `Glaze`.
-/

namespace Monutchee.System
open Lib Lib.Act Validation Logging Fixture

/-! ### Texts that pass validation -/

/-- No control characters: at most two bytes of JSON for each byte. -/
def Printable (text : Bytes) : Prop := ∀ c ∈ text, 32 ≤ c.toNat

theorem Printable.nil : Printable [] := by simp [Printable]

theorem Printable.append {a b : Bytes} (ha : Printable a) (hb : Printable b) : Printable (a ++ b) := by
  intro c hc
  rcases List.mem_append.mp hc with hc | hc
  · exact ha c hc
  · exact hb c hc

theorem plain_of_all {text : Bytes} {p : UInt8 → Bool} (h : text.all p = true)
    (hp : ∀ c, p c = true → 32 ≤ c.toNat) : Printable text := by
  intro c hc
  exact hp c (List.all_eq_true.mp h c hc)

theorem splitAt_plain {c : UInt8} {text part : Bytes} {after : Option Bytes}
    (h : splitAt c text = (part, after)) (hc : 32 ≤ c.toNat) (hp : Printable part)
    (ha : ∀ rest, after = some rest → Printable rest) : Printable text := by
  rw [splitAt_text h]
  cases after with
  | none => exact hp.append Printable.nil
  | some rest =>
    apply hp.append
    intro b hb
    obtain rfl | hb := List.mem_cons.mp hb
    · exact hc
    · exact ha rest rfl b hb

theorem octet_short {part : Bytes} {n : ℕ} (h : octet part = some n) :
    part.length ≤ 3 ∧ Printable part := by
  obtain ⟨hle, rfl⟩ := octet_iff.mp h
  refine ⟨decimal_short hle, ?_⟩
  intro c hc
  have hd := isDigit_iff.mp ((decimal_numeral (by omega)).1.digits c hc)
  omega

/-- A dotted address with the given number of octets. -/
theorem dotted_short {due : ℕ} {text part : Bytes} {after : Option Bytes} {n : ℕ}
    (hs : splitAt 46 text = (part, after)) (ho : octet part = some n)
    (hlast : ((due == 0) == after.isNone) = true)
    (hrest : ∀ rest, after = some rest → rest.length ≤ 4 * due - 1 ∧ Printable rest) :
    text.length ≤ 4 * (due + 1) - 1 ∧ Printable text := by
  obtain ⟨hl, hp⟩ := octet_short ho
  refine ⟨?_, splitAt_plain hs (by decide) hp fun rest hr => (hrest rest hr).2⟩
  rw [splitAt_text hs, List.length_append]
  cases after with
  | none =>
    rw [Option.elim_none, List.length_nil]
    omega
  | some rest =>
    have hr := (hrest rest rfl).1
    have hd : due ≠ 0 := by
      intro hd
      simp [hd] at hlast
    rw [Option.elim_some, List.length_cons]
    omega

theorem ipv4Loop_short {due : ℕ} {text : Bytes} {result r : BitVec 32}
    (h : ipv4Loop (due + 1) text result = .ok r) : text.length ≤ 4 * (due + 1) - 1 ∧ Printable text := by
  induction due generalizing text result with
  | zero =>
    rw [ipv4Loop] at h
    rcases hs : splitAt 46 text with ⟨part, after⟩
    rw [hs] at h
    dsimp only at h
    cases ho : octet part with
    | none => simp [ho] at h
    | some n =>
      rw [ho] at h
      obtain ⟨hc, -⟩ := then_ok.mp h
      apply dotted_short hs ho (check_ok.mp hc)
      intro rest hr
      rw [hr] at hc
      simp [check] at hc
  | succ due ih =>
    rw [ipv4Loop] at h
    rcases hs : splitAt 46 text with ⟨part, after⟩
    rw [hs] at h
    dsimp only at h
    cases ho : octet part with
    | none => simp [ho] at h
    | some n =>
      rw [ho] at h
      obtain ⟨hc, hloop⟩ := then_ok.mp h
      apply dotted_short hs ho (check_ok.mp hc)
      intro rest hr
      rw [hr, Option.getD_some] at hloop
      exact ih hloop

theorem ipv4_short {text : Bytes} {r : BitVec 32} (h : ipv4 text = .ok r) :
    text.length ≤ 15 ∧ Printable text := by
  unfold ipv4 at h
  obtain ⟨result, hl, -⟩ := bind_ok.mp h
  exact ipv4Loop_short hl

theorem decimalAddress_plain {due : ℕ} {text : Bytes} (h : decimalAddress (due + 1) text = true) :
    Printable text := by
  induction due generalizing text with
  | zero =>
    rw [decimalAddress] at h
    rcases hs : splitAt 46 text with ⟨part, after⟩
    simp only [hs, Bool.and_eq_true] at h
    obtain ⟨n, hn⟩ := Option.isSome_iff_exists.mp h.1.1
    apply splitAt_plain hs (by decide) (octet_short hn).2
    intro rest hr
    rw [hr] at h
    simp at h
  | succ due ih =>
    rw [decimalAddress] at h
    rcases hs : splitAt 46 text with ⟨part, after⟩
    simp only [hs, Bool.and_eq_true] at h
    obtain ⟨n, hn⟩ := Option.isSome_iff_exists.mp h.1.1
    apply splitAt_plain hs (by decide) (octet_short hn).2
    intro rest hr
    rw [hr, Option.getD_some] at h
    exact ih h.2

theorem countWords_plain {allowV4 : Bool} {fuel n : ℕ} {text : Bytes}
    (h : countWords allowV4 fuel text = some n) : Printable text := by
  induction fuel generalizing text n with
  | zero =>
    cases text with
    | nil => exact Printable.nil
    | cons b bs => simp [countWords] at h
  | succ fuel ih =>
    cases text with
    | nil => exact Printable.nil
    | cons b bs =>
      unfold countWords at h
      rcases hs : splitAt 58 (b :: bs) with ⟨word, after⟩
      rw [hs] at h
      dsimp only at h
      split at h
      · split at h
        · rename_i hv4
          simp only [Bool.and_eq_true, Option.isNone_iff_eq_none] at hv4
          apply splitAt_plain hs (by decide) (decimalAddress_plain hv4.2)
          intro rest hr
          simp [hv4.1.2] at hr
        · simp at h
      · split at h
        · rename_i m hm
          have hword : Printable word := by
            intro c hc
            have hr := digitValue_range ((fromChars_whole hm).1 c hc)
            omega
          split at h
          · simp at h
          · apply splitAt_plain hs (by decide) hword
            intro rest hr
            subst hr
            cases rest with
            | nil => exact Printable.nil
            | cons r rs =>
              obtain ⟨k, hk, -⟩ := Option.map_eq_some_iff.mp h
              exact ih hk
        · simp at h

theorem hostLabels_plain {fuel : ℕ} {text : Bytes} (h : hostLabels fuel text = true) : Printable text := by
  have hlabel : ∀ {label : Bytes}, hostLabel label = true → Printable label := by
    intro label hl
    unfold hostLabel at hl
    rw [Bool.and_eq_true] at hl
    apply plain_of_all hl.2
    intro c hc
    rw [Bool.or_eq_true, beq_iff_eq] at hc
    obtain hc | rfl := hc
    · have hr := isAlnum_range hc
      omega
    · decide
  induction fuel generalizing text with
  | zero =>
    cases text with
    | nil => exact Printable.nil
    | cons b bs => simp [hostLabels] at h
  | succ fuel ih =>
    cases text with
    | nil => exact Printable.nil
    | cons b bs =>
      unfold hostLabels at h
      rcases hs : splitAt 46 (b :: bs) with ⟨label, after⟩
      simp only [hs, Bool.and_eq_true] at h
      apply splitAt_plain hs (by decide) (hlabel h.1)
      intro rest hr
      rw [hr] at h
      exact ih h.2

theorem ntpServer_short {server : Bytes} (h : validNtpServer server = true) :
    server.length ≤ 253 ∧ Printable server := by
  unfold validNtpServer at h
  split at h
  · simp at h
  · rename_i hlen
    simp only [Bool.or_eq_true, decide_eq_true_eq, not_or, Nat.not_lt] at hlen
    refine ⟨hlen.2, ?_⟩
    split at h
    · unfold ipv6 at h
      split at h
      · exact countWords_plain (beq_iff_eq.mp h)
      · rename_i left right hs
        rw [Bool.and_eq_true] at h
        split at h
        · rename_i l r hl hr
          rw [splitCompression_text hs]
          have hcolons : Printable (58 :: 58 :: right) := by
            intro c hc
            rcases List.mem_cons.mp hc with rfl | hc
            · decide
            · rcases List.mem_cons.mp hc with rfl | hc
              · decide
              · exact countWords_plain hr c hc
          exact (countWords_plain hl).append hcolons
        · simp at h
    · split at h
      · exact decimalAddress_plain h
      · have hp := hostLabels_plain h
        by_cases hdot : server.getLast? = some 46
        · rw [if_pos hdot] at hp
          have hlast := List.dropLast_append_getLast? 46 hdot
          rw [← hlast]
          exact hp.append (by simp [Printable])
        · rw [if_neg hdot] at hp
          exact hp

/-! ### The writer

glz::write_json of the state: the members of each struct in the order of their declaration,
without blanks. -/

/-- How Glaze writes a string, and what it reads from a text. -/
structure Glaze where
  text : Bytes → Bytes
  read : Bytes → Except Bytes State

def commas : List Bytes → Bytes
  | [] => []
  | [part] => part
  | part :: parts => part ++ 44 :: commas parts

def member (m : String × Bytes) : Bytes := 34 :: (ascii m.1 ++ 34 :: 58 :: m.2)

def object (members : List (String × Bytes)) : Bytes := 123 :: (commas (members.map member) ++ [125])

def array (items : List Bytes) : Bytes := 91 :: (commas items ++ [93])

def boolean (b : Bool) : Bytes := if b then ascii "true" else ascii "false"

def NetworkMode.text : NetworkMode → Bytes
  | .dhcp => ascii "dhcp"
  | .staticIpv4 => ascii "static_ipv4"

def TransactionState.text : TransactionState → Bytes
  | .idle => ascii "idle"
  | .pending => ascii "pending"
  | .committing => ascii "committing"
  | .committed => ascii "committed"
  | .rolledBack => ascii "rolled_back"

def JobState.text : JobState → Bytes
  | .none => []
  | .accepted => ascii "accepted"
  | .dispatched => ascii "dispatched"
  | .failed => ascii "failed"
  | .interrupted => ascii "interrupted"
  | .completed => ascii "completed"

namespace Glaze
variable (G : Glaze)

def networkConfig (c : NetworkConfig) : Bytes :=
  object [("interface", G.text c.interface), ("mode", G.text c.mode.text),
    ("address", G.text c.address), ("prefix_length", decimal c.prefixLength.toNat),
    ("gateway", G.text c.gateway), ("dns_servers", array (c.dnsServers.map G.text)),
    ("preferred_default", boolean c.preferredDefault)]

def network (n : Network) : Bytes := array (n.map G.networkConfig)

def preferences (p : Preferences) : Bytes :=
  object [("hostname", G.text p.hostname), ("ssh_enabled", boolean p.sshEnabled),
    ("network", G.network p.network)]

def timePreferences (t : TimePreferences) : Bytes :=
  object [("synchronization", G.text t.synchronization), ("timezone", G.text t.timezone),
    ("ptp_interface", G.text t.ptpInterface),
    ("ntp_servers", array (t.ntpServers.map G.text))]

def configuration (c : Configuration) : Bytes :=
  object [("system", G.preferences c.system), ("time", G.timePreferences c.time)]

def transaction (t : NetworkTransaction) : Bytes :=
  object [("id", G.text t.id), ("state", G.text t.state.text),
    ("remaining_ms", decimal t.remainingMs), ("network", G.network t.network),
    ("message", G.text t.message)]

def pending (p : Pending) : Bytes :=
  object [("transaction", G.transaction p.transaction), ("previous", G.network p.previous),
    ("previous_hash", G.text p.previousHash), ("candidate_hash", G.text p.candidateHash),
    ("deadline", decimal p.deadline), ("actor", G.text p.actor),
    ("request_id", G.text p.requestId)]

def job (j : Job) : Bytes :=
  object [("id", G.text j.id), ("action", G.text j.action.text),
    ("state", G.text j.state.text)]

/-- `encode(state_)`. -/
def encode (s : State) : Bytes :=
  object [("configuration", G.configuration s.configuration),
    ("initialized", boolean s.initialized), ("pending", G.pending s.pending),
    ("job", G.job s.job), ("reset_intent", boolean s.resetIntent),
    ("job_actor", G.text s.jobActor), ("job_request_id", G.text s.jobRequestId)]

/-- The state that the constructor makes of the file state.json, or of its absence. -/
def load (P : Profile) (file : Option Bytes) : Except Error State :=
  match file with
  | none => .ok (Backend.migrate P { configuration := P.defaults })
  | some text => (decode G.read text).map (Backend.migrate P)

end Glaze

/-- The texts of a state that Glaze writes with at most two bytes for each byte, and its numbers
of 64 bits. -/
structure Writable (s : State) : Prop where
  texts : ∀ v ∈ [s.configuration.system.hostname, s.configuration.time.synchronization,
    s.configuration.time.timezone, s.configuration.time.ptpInterface, s.pending.transaction.id,
    s.pending.transaction.message, s.pending.previousHash, s.pending.candidateHash, s.pending.actor,
    s.pending.requestId, s.job.id, s.jobActor, s.jobRequestId] ++ s.configuration.time.ntpServers, Printable v
  networks : ∀ n ∈ [s.configuration.system.network, s.pending.transaction.network, s.pending.previous],
    ∀ c ∈ n, Printable c.interface ∧ Printable c.address ∧ Printable c.gateway ∧ ∀ d ∈ c.dnsServers, Printable d
  remaining : s.pending.transaction.remainingMs < 2^64
  deadline : s.pending.deadline < 2^64

/-- A string without control characters takes at most two bytes for each byte, and its quotes. -/
def Glaze.Short (G : Glaze) : Prop := ∀ v, Printable v → (G.text v).length ≤ 2 * v.length + 2

/-- Reading undoes writing. -/
def Glaze.Reads (G : Glaze) (s : State) : Prop := Writable s → G.read (G.encode s) = .ok s

/-! ### Lengths -/

theorem commas_length (parts : List Bytes) :
    (commas parts).length ≤ (parts.map fun part => part.length + 1).sum := by
  induction parts with
  | nil => simp [commas]
  | cons part parts ih =>
    cases parts with
    | nil => simp [commas]
    | cons q parts =>
      rw [commas, List.length_append, List.length_cons, List.map_cons, List.sum_cons]
      · omega
      · simp

/-- No name of a member is longer than "preferred_default". -/
theorem object_length {members : List (String × Bytes)}
    (hn : (members.map Prod.fst).all (fun name => (ascii name).length ≤ 17) = true) :
    (object members).length ≤ (members.map fun m => m.2.length + 21).sum + 2 := by
  have hc := commas_length (members.map member)
  have hsum : ((members.map member).map fun part => part.length + 1).sum ≤
      (members.map fun m => m.2.length + 21).sum := by
    clear hc
    induction members with
    | nil => simp
    | cons m ms ih =>
      rw [List.map_cons, List.all_cons, Bool.and_eq_true, decide_eq_true_eq] at hn
      have hrest := ih hn.2
      have hm : (member m).length = (ascii m.1).length + 3 + m.2.length := by
        simp only [member, List.length_cons, List.length_append]
        omega
      simp only [List.map_cons, List.sum_cons]
      omega
  simp only [object, List.length_cons, List.length_append, List.length_nil]
  omega

theorem array_length {items : List Bytes} {bound count : ℕ} (hb : ∀ x ∈ items, x.length ≤ bound)
    (hn : items.length ≤ count) : (array items).length ≤ count * (bound + 1) + 2 := by
  have hc := commas_length items
  have hsum : (items.map fun part => part.length + 1).sum ≤ items.length * (bound + 1) := by
    induction items with
    | nil => simp
    | cons x xs ih =>
      have hx := hb x (List.mem_cons_self ..)
      have hrest := ih (fun y hy => hb y (List.mem_cons_of_mem _ hy))
        (by rw [List.length_cons] at hn; omega) (commas_length xs)
      rw [List.map_cons, List.sum_cons, List.length_cons, Nat.succ_mul]
      omega
  have hmul := Nat.mul_le_mul_right (bound + 1) hn
  simp only [array, List.length_cons, List.length_append, List.length_nil]
  omega

theorem decimal_length (n : ℕ) : (decimal n).length ≤ 20 := by
  have hempty : ∀ c ∈ ([] : Bytes), 32 ≤ c.toNat ∧ c.toNat ≠ 127 := by simp
  have hd := (decimalBefore_digits 20 n hempty).1
  exact hd

theorem boolean_length (b : Bool) : (boolean b).length ≤ 5 := by
  cases b with
  | false => decide
  | true => decide

/-! ### Bounds on a well-formed state -/

def Fits (n : ℕ) (v : Bytes) : Prop := v.length ≤ n ∧ Printable v

theorem Fits.nil (n : ℕ) : Fits n [] := ⟨Nat.zero_le n, Printable.nil⟩

/-- The texts of an interface that passed validation. -/
structure ShortInterface (c : NetworkConfig) : Prop where
  interface : Fits 15 c.interface
  address : Fits 15 c.address
  gateway : Fits 15 c.gateway
  count : c.dnsServers.length ≤ 4
  dnsServers : ∀ d ∈ c.dnsServers, Fits 15 d

theorem ipv4_forM {servers : List Bytes}
    (h : servers.forM (fun dns => do let _ ← ipv4 dns) = (.ok () : Except Error Unit)) :
    ∀ d ∈ servers, Fits 15 d := by
  induction servers with
  | nil => simp
  | cons x xs ih =>
    rw [List.forM] at h
    obtain ⟨hx, hxs⟩ := then_ok.mp h
    obtain ⟨r, hr, -⟩ := bind_ok.mp hx
    intro d hd
    obtain rfl | hd := List.mem_cons.mp hd
    · exact ipv4_short hr
    · exact ih hxs d hd

theorem validateStatic_short {c : NetworkConfig} (h : validateStatic c = .ok ()) :
    Fits 15 c.address ∧ Fits 15 c.gateway := by
  unfold validateStatic at h
  obtain ⟨-, h⟩ := then_ok.mp h
  obtain ⟨-, h⟩ := then_ok.mp h
  obtain ⟨address, ha, h⟩ := bind_ok.mp h
  refine ⟨ipv4_short ha, ?_⟩
  by_cases hg : c.gateway.isEmpty = true
  · rw [List.isEmpty_iff.mp hg]
    exact Fits.nil 15
  · dsimp only at h
    have hgate : ∃ r, ipv4 c.gateway = .ok r := by
      by_cases hp : c.prefixLength < 31
      · rw [if_pos hp] at h
        obtain ⟨-, h⟩ := then_ok.mp h
        rw [if_pos (by simpa using hg)] at h
        obtain ⟨r, hr, -⟩ := bind_ok.mp h
        exact ⟨r, hr⟩
      · rw [if_neg hp, if_pos (by simpa using hg)] at h
        obtain ⟨r, hr, -⟩ := bind_ok.mp h
        exact ⟨r, hr⟩
    obtain ⟨r, hr⟩ := hgate
    exact ipv4_short hr

theorem validateInterface_short {names : List Bytes} {c : NetworkConfig}
    (h : validateInterface names c = .ok ()) : ShortInterface c := by
  unfold validateInterface at h
  obtain ⟨hname, h⟩ := then_ok.mp h
  obtain ⟨-, h⟩ := then_ok.mp h
  obtain ⟨hcount, h⟩ := then_ok.mp h
  obtain ⟨hdns, h⟩ := then_ok.mp h
  obtain ⟨hlen, hplain⟩ := interfaceName_plain (check_ok.mp hname)
  have hinterface : Fits 15 c.interface := by
    refine ⟨by omega, ?_⟩
    intro b hb
    have hr := hplain b hb
    omega
  have hrest : Fits 15 c.address ∧ Fits 15 c.gateway := by
    cases hm : c.mode with
    | dhcp =>
      rw [hm] at h
      have he := check_ok.mp h
      rw [Bool.and_eq_true, List.isEmpty_iff, List.isEmpty_iff] at he
      rw [he.1, he.2]
      exact ⟨Fits.nil 15, Fits.nil 15⟩
    | staticIpv4 =>
      rw [hm] at h
      exact validateStatic_short h
  exact ⟨hinterface, hrest.1, hrest.2, by simpa using check_ok.mp hcount, ipv4_forM hdns⟩

/-- The interfaces of a valid network. -/
theorem validateNetwork_short {n : Network} (h : validateNetwork n = .ok ()) :
    n.length ≤ 8 ∧ ∀ c ∈ n, ShortInterface c := by
  obtain ⟨hlen, -, hall⟩ := validateNetwork_ok.mp h
  refine ⟨hlen, ?_⟩
  intro c hc
  exact validateInterface_short ((validateInterfaces_mem hall).1 c hc).2

theorem validateServers_short {seen servers : List Bytes} (h : validateServers seen servers = .ok ()) :
    ∀ v ∈ servers, Fits 253 v :=
  fun v hv => ntpServer_short (validateServers_valid h v hv)

/-- The texts of a valid configuration. -/
structure ShortConfiguration (c : Configuration) : Prop where
  hostname : Fits 63 c.system.hostname
  synchronization : Fits 5 c.time.synchronization
  timezone : Fits 128 c.time.timezone
  ptpInterface : Fits 15 c.time.ptpInterface
  count : c.time.ntpServers.length ≤ 8
  ntpServers : ∀ v ∈ c.time.ntpServers, Fits 253 v

theorem validate_short {c : Configuration} (h : validate c = .ok ()) : ShortConfiguration c := by
  obtain ⟨hh, ht, -⟩ := validate_ok.mp h
  refine ⟨?_, ?_, ?_, ?_, ht.count, validateServers_short ht.servers⟩
  · unfold validHostname at hh
    simp only [Bool.and_eq_true, decide_eq_true_eq] at hh
    refine ⟨hh.1.1.1.2, plain_of_all hh.2 ?_⟩
    intro b hb
    rw [Bool.or_eq_true, beq_iff_eq] at hb
    obtain hb | rfl := hb
    · have hr := isAlnum_range hb
      omega
    · decide
  · have hm := ht.mode
    unfold validMode at hm
    simp only [Bool.or_eq_true, beq_iff_eq] at hm
    obtain ((hm | hm) | hm) | hm := hm <;> rw [hm] <;> exact ⟨by decide +kernel, by unfold Printable; decide +kernel⟩
  · have hz := ht.timezone
    unfold validTimezone at hz
    simp only [Bool.and_eq_true, decide_eq_true_eq] at hz
    refine ⟨hz.1.1.1.2, plain_of_all hz.2 ?_⟩
    intro b hb
    simp only [Bool.or_eq_true, beq_iff_eq] at hb
    obtain (((hb | rfl) | rfl) | rfl) | rfl := hb
    · have hr := isAlnum_range hb
      omega
    · decide
    · decide
    · decide
    · decide
  · obtain ⟨he, -⟩ | hp := ht.ptp
    · rw [List.isEmpty_iff.mp he]
      exact Fits.nil 15
    · obtain ⟨hlen, hplain⟩ := interfaceName_plain hp
      refine ⟨by omega, ?_⟩
      intro b hb
      have hr := hplain b hb
      omega

section Bounds
variable {G : Glaze} (hG : G.Short)
include hG

theorem text_length {n : ℕ} {v : Bytes} (h : Fits n v) : (G.text v).length ≤ 2 * n + 2 := by
  have hs := hG v h.2
  have hl := h.1
  omega

theorem texts_length {n count : ℕ} {vs : List Bytes} (hc : vs.length ≤ count)
    (h : ∀ v ∈ vs, Fits n v) : (array (vs.map G.text)).length ≤ count * (2 * n + 3) + 2 := by
  apply array_length
  · intro x hx
    obtain ⟨v, hv, rfl⟩ := List.mem_map.mp hx
    exact text_length hG (h v hv)
  · simpa using hc

theorem networkConfig_length {c : NetworkConfig} (h : ShortInterface c) :
    (G.networkConfig c).length ≤ 430 := by
  have hmode : Fits 11 c.mode.text := by
    cases c.mode with
    | dhcp => exact ⟨by decide +kernel, by unfold Printable; decide +kernel⟩
    | staticIpv4 => exact ⟨by decide +kernel, by unfold Printable; decide +kernel⟩
  have h₁ := text_length hG h.interface
  have h₂ := text_length hG hmode
  have h₃ := text_length hG h.address
  have h₄ := decimal_length c.prefixLength.toNat
  have h₅ := text_length hG h.gateway
  have h₆ := texts_length hG h.count h.dnsServers
  have h₇ := boolean_length c.preferredDefault
  apply le_trans (object_length (by simp only [List.map_cons, List.map_nil]; decide))
  simp only [List.map_cons, List.map_nil, List.sum_cons, List.sum_nil]
  omega

theorem network_length {n : Network} (h : validateNetwork n = .ok ()) : (G.network n).length ≤ 3450 := by
  obtain ⟨hlen, hshort⟩ := validateNetwork_short h
  have hitems : ∀ x ∈ n.map G.networkConfig, x.length ≤ 430 := by
    intro x hx
    obtain ⟨c, hc, rfl⟩ := List.mem_map.mp hx
    exact networkConfig_length hG (hshort c hc)
  exact array_length hitems (by simpa using hlen : (n.map G.networkConfig).length ≤ 8)

theorem configuration_length {c : Configuration} (h : validate c = .ok ()) :
    (G.configuration c).length ≤ 8154 := by
  have hs := validate_short h
  have hpreferences : (G.preferences c.system).length ≤ 3648 := by
    have h₁ := text_length hG hs.hostname
    have h₂ := boolean_length c.system.sshEnabled
    have h₃ := network_length hG (validate_network h)
    apply le_trans (object_length (by simp only [List.map_cons, List.map_nil]; decide))
    simp only [List.map_cons, List.map_nil, List.sum_cons, List.sum_nil]
    omega
  have htime : (G.timePreferences c.time).length ≤ 4462 := by
    have h₁ := text_length hG hs.synchronization
    have h₂ := text_length hG hs.timezone
    have h₃ := text_length hG hs.ptpInterface
    have h₄ := texts_length hG hs.count hs.ntpServers
    apply le_trans (object_length (by simp only [List.map_cons, List.map_nil]; decide))
    simp only [List.map_cons, List.map_nil, List.sum_cons, List.sum_nil]
    omega
  apply le_trans (object_length (by simp only [List.map_cons, List.map_nil]; decide))
  simp only [List.map_cons, List.map_nil, List.sum_cons, List.sum_nil]
  omega

end Bounds

/-! ### The journal is always readable -/

/-- A random id is 32 hexadecimal digits; an id that was not drawn yet is empty. -/
def isHex (c : UInt8) : Bool := isDigit c || (97 ≤ c && c ≤ 102)

def hexId (id : Bytes) : Bool := id.isEmpty || (id.length == 32 && id.all isHex)

def journalLimits : Limits where
  network actor requestId := safeText actor 256 = true ∧ safeText requestId 128 = true
  job actor requestId := safeText actor 256 = true ∧ safeText requestId 128 = true
  id id := hexId id = true

theorem isHex_range {c : UInt8} (h : isHex c = true) : 48 ≤ c.toNat := by
  unfold isHex isDigit at h
  simp only [Bool.or_eq_true, Bool.and_eq_true, decide_eq_true_eq, UInt8.le_iff_toNat_le] at h
  have h48 : (48 : UInt8).toNat = 48 := rfl
  have h97 : (97 : UInt8).toNat = 97 := rfl
  omega

theorem safeText_fits {v : Bytes} {n : ℕ} (h : safeText v n = true) : Fits n v := by
  unfold safeText at h
  rw [Bool.and_eq_true, Bool.not_eq_true', List.any_eq_false, decide_eq_true_eq] at h
  refine ⟨h.1, ?_⟩
  intro c hc
  have hn := h.2 c hc
  rw [Bool.or_eq_true, not_or, decide_eq_true_eq, UInt8.lt_iff_toNat_lt] at hn
  have h32 : (0x20 : UInt8).toNat = 32 := rfl
  omega

theorem hexId_fits {id : Bytes} (h : hexId id = true) : Fits 32 id := by
  unfold hexId at h
  rw [Bool.or_eq_true, List.isEmpty_iff, Bool.and_eq_true, beq_iff_eq] at h
  obtain rfl | ⟨hl, hall⟩ := h
  · exact Fits.nil 32
  · refine ⟨by omega, plain_of_all hall ?_⟩
    intro c hc
    have hr := isHex_range hc
    omega

theorem hash_fits {v : Bytes} (h : validHashOrEmpty v) : Fits 64 v := by
  obtain rfl | h := h
  · exact Fits.nil 64
  · unfold Backend.validHash at h
    rw [Bool.and_eq_true, beq_iff_eq] at h
    refine ⟨by omega, plain_of_all h.2 ?_⟩
    intro c hc
    have hr : 48 ≤ c.toNat := isHex_range (by rw [isHex, isDigit]; exact hc)
    omega

theorem confirmation_fits {v : Bytes} (h : v = [] ∨ v = confirmation) : Fits 52 v := by
  obtain rfl | rfl := h
  · exact Fits.nil 52
  · exact ⟨by decide +kernel, by unfold Printable; decide +kernel⟩

variable {P : Profile} {s : State}

/-- A well-formed state is within what Glaze writes and reads. -/
theorem WellFormed.writable (h : WellFormed P journalLimits s) : Writable s := by
  have hc := validate_short (h.valid trivial)
  have hp := h.pending
  refine ⟨?_, ?_, ?_, hp.deadline⟩
  · intro v hv
    rcases List.mem_append.mp hv with hv | hv
    · simp only [List.mem_cons, List.not_mem_nil, or_false] at hv
      obtain rfl | rfl | rfl | rfl | rfl | rfl | rfl | rfl | rfl | rfl | rfl | rfl | rfl := hv
      · exact hc.hostname.2
      · exact hc.synchronization.2
      · exact hc.timezone.2
      · exact hc.ptpInterface.2
      · exact (hexId_fits hp.id).2
      · exact (confirmation_fits hp.message).2
      · exact (hash_fits hp.previousHash).2
      · exact (hash_fits hp.candidateHash).2
      · exact (safeText_fits hp.caller.1).2
      · exact (safeText_fits hp.caller.2).2
      · exact (hexId_fits h.jobId).2
      · exact (safeText_fits h.jobCaller.1).2
      · exact (safeText_fits h.jobCaller.2).2
    · exact (hc.ntpServers v hv).2
  · have hshort : ∀ n : Network, validateNetwork n = .ok () → ∀ c ∈ n,
        Printable c.interface ∧ Printable c.address ∧ Printable c.gateway ∧ ∀ d ∈ c.dnsServers, Printable d := by
      intro n hn c hc
      have hs := (validateNetwork_short hn).2 c hc
      exact ⟨hs.interface.2, hs.address.2, hs.gateway.2, fun d hd => (hs.dnsServers d hd).2⟩
    intro n hn
    simp only [List.mem_cons, List.not_mem_nil, or_false] at hn
    obtain rfl | rfl | rfl := hn
    · exact hshort _ (validate_network (h.valid trivial))
    · exact hshort _ (hp.network trivial)
    · exact hshort _ (hp.previous trivial)
  · have hr := hp.remaining
    omega

theorem WellFormed.encode_length {G : Glaze} (hG : G.Short) (h : WellFormed P journalLimits s) :
    (G.encode s).length ≤ 17690 := by
  have hp := h.pending
  have htransaction : (G.transaction s.pending.transaction).length ≤ 3773 := by
    have hstate : Fits 11 s.pending.transaction.state.text := by
      cases s.pending.transaction.state <;> exact ⟨by decide +kernel, by unfold Printable; decide +kernel⟩
    have h₁ := text_length hG (hexId_fits hp.id)
    have h₂ := text_length hG hstate
    have h₃ := decimal_length s.pending.transaction.remainingMs
    have h₄ := network_length hG (hp.network trivial)
    have h₅ := text_length hG (confirmation_fits hp.message)
    apply le_trans (object_length (by simp only [List.map_cons, List.map_nil]; decide))
    simp only [List.map_cons, List.map_nil, List.sum_cons, List.sum_nil]
    omega
  have hpending : (G.pending s.pending).length ≤ 8424 := by
    have h₁ := network_length hG (hp.previous trivial)
    have h₂ := text_length hG (hash_fits hp.previousHash)
    have h₃ := text_length hG (hash_fits hp.candidateHash)
    have h₄ := decimal_length s.pending.deadline
    have h₅ := text_length hG (safeText_fits hp.caller.1)
    have h₆ := text_length hG (safeText_fits hp.caller.2)
    apply le_trans (object_length (by simp only [List.map_cons, List.map_nil]; decide))
    simp only [List.map_cons, List.map_nil, List.sum_cons, List.sum_nil]
    omega
  have hjob : (G.job s.job).length ≤ 181 := by
    have haction : Fits 12 s.job.action.text := by
      cases s.job.action <;> exact ⟨by decide +kernel, by unfold Printable; decide +kernel⟩
    have hstate : Fits 11 s.job.state.text := by
      cases s.job.state <;> exact ⟨by decide +kernel, by unfold Printable; decide +kernel⟩
    have h₁ := text_length hG (hexId_fits h.jobId)
    have h₂ := text_length hG haction
    have h₃ := text_length hG hstate
    apply le_trans (object_length (by simp only [List.map_cons, List.map_nil]; decide))
    simp only [List.map_cons, List.map_nil, List.sum_cons, List.sum_nil]
    omega
  have h₁ := configuration_length hG (h.valid trivial)
  have h₂ := boolean_length s.initialized
  have h₃ := boolean_length s.resetIntent
  have h₄ := text_length hG (safeText_fits h.jobCaller.1)
  have h₅ := text_length hG (safeText_fits h.jobCaller.2)
  apply le_trans (object_length (by simp only [List.map_cons, List.map_nil]; decide))
  simp only [List.map_cons, List.map_nil, List.sum_cons, List.sum_nil]
  omega

theorem journal_surroundings {S : Site} (hs : Sound S.profile) : Surroundings S journalLimits where
  sound _ := hs
  booted h := absurd h id
  id := rfl
  network := ⟨by decide, rfl⟩
  job := ⟨by decide, rfl⟩
  reset h := absurd h id
  settle _ _ _ _ := trivial
  pending _ _ := trivial
  requested _ _ _ := trivial
  interrupted _ _ _ := trivial
  dispatched _ _ _ := trivial
  failed _ _ _ := trivial
  completed _ _ := trivial
  link _ _ := trivial

/-- All choices of the environment in a part of the life. -/
def Life.choices : Life → List Choice
  | .bootstrap built script | .launch built script => built ++ script
  | .stop => []
  | .input i => i.script

theorem journal_within {D : Daemon} {l : Life} (h : ∀ c ∈ l.choices, hexId c.id = true) :
    l.Within D journalLimits := by
  cases l with
  | bootstrap built script =>
    exact ⟨fun c hc => h c (List.mem_append_left _ hc), fun c hc => h c (List.mem_append_right _ hc)⟩
  | launch built script =>
    exact ⟨fun c hc => h c (List.mem_append_left _ hc), fun c hc => h c (List.mem_append_right _ hc)⟩
  | stop => trivial
  | input i =>
    refine ⟨h, ?_⟩
    intro r script op _ ha
    have hg : auditLimits.grants op := authorize_grants ha
    cases op with
    | beginNetwork p actor requestId => exact hg
    | finishNetwork id commit actor requestId => exact hg
    | power action actor requestId => exact hg
    | resetDevice confirmed actor requestId => exact hg
    | _ => trivial

theorem decode_encode {G : Glaze} {s : State} (hl : (G.encode s).length ≤ maxMessageSize)
    (hr : G.read (G.encode s) = .ok s) : decode G.read (G.encode s) = .ok s := by
  rw [decode, if_neg (Nat.not_lt.mpr hl), hr]

/-- Over the whole life of a service with validated configurations, the text of the state in
memory and of the state in the journal is within the limit of the reader. The constructor
therefore accepts every journal that was written, and the state it starts with is the written
one, with an empty PTP port filled from the defaults. -/
theorem journal_reloads (D : Daemon) (G : Glaze) (hG : G.Short) (hs : Sound D.site.profile)
    (settings : Option Bytes) (tree : List Bytes) (status : StatusFile) (ls : List Life)
    (hids : ∀ l ∈ ls, ∀ c ∈ l.choices, hexId c.id = true)
    (hreads : ∀ d, (D.lives (fresh settings tree status) ls).journal = some d → G.Reads d) :
    let w := D.lives (fresh settings tree status) ls
    let P := D.site.profile
    (w.alive = true → (G.encode w.state).length ≤ maxMessageSize) ∧
    G.load P (w.journal.map G.encode) = .ok (Backend.loaded P w.journal) ∧
    ∀ d, w.journal = some d →
      (G.encode d).length ≤ maxMessageSize ∧ decode G.read (G.encode d) = .ok d ∧
      (d.configuration.time.ptpInterface ≠ [] → Backend.loaded P w.journal = d) ∧
      (d.configuration.time.ptpInterface = [] → Backend.loaded P w.journal =
        { d with configuration := { d.configuration with
          time := { d.configuration.time with ptpInterface := P.defaults.time.ptpInterface } } }) := by
  intro w P
  have hbooted : ¬journalLimits.booted := fun h => h
  have hw : Sustained D.site journalLimits w :=
    lives_sustained (journal_surroundings hs) (fun l hl => journal_within (hids l hl))
      (fresh_sustained settings tree status hbooted)
  have hmax : maxMessageSize = 65536 := rfl
  have hlen : ∀ {s : State}, WellFormed P journalLimits s → (G.encode s).length ≤ maxMessageSize := by
    intro s h
    have hl := h.encode_length hG
    omega
  have hdecode : ∀ d, w.journal = some d → decode G.read (G.encode d) = .ok d := by
    intro d hd
    have hf := hw.durable.stored d hd
    exact decode_encode (hlen hf) (hreads d hd hf.writable)
  refine ⟨fun ha => hlen (hw.running ha).memory, ?_, ?_⟩
  · cases hj : w.journal with
    | none => rfl
    | some d =>
      change (decode G.read (G.encode d)).map (Backend.migrate P) = _
      rw [hdecode d hj]
      rfl
  · intro d hd
    refine ⟨hlen (hw.durable.stored d hd), hdecode d hd, ?_, ?_⟩
    · intro hp
      rw [hd, Backend.loaded, Option.getD_some, Backend.migrate, if_neg (by simpa using hp)]
    · intro hp
      rw [hd, Backend.loaded, Option.getD_some, Backend.migrate, if_pos (by simp [hp])]

namespace Fixture

/-- Quotes and backslashes are escaped. -/
def quoted (v : Bytes) : Bytes :=
  34 :: (v.flatMap (fun c => if c = 34 ∨ c = 92 then [92, c] else [c]) ++ [34])

/-- A service that has begun a network transaction. -/
def begun : List Life :=
  [.launch [] [{ config := config }],
    .input (ask 100 "BeginNetwork" proposalText [{}, {}, { id := Fixture.id }])]

@[irreducible] def journaled : State := (daemon.lives (fresh (some previous) [] .missing) begun).state

def glaze : Glaze where
  text := quoted
  read text :=
    if text = Glaze.encode ⟨quoted, fun _ => unexpected⟩ journaled then .ok journaled else unexpected

theorem glaze_reads : glaze.read (glaze.encode journaled) = .ok journaled := by
  have he : ∀ s, glaze.encode s = Glaze.encode ⟨quoted, fun _ => unexpected⟩ s := fun _ => rfl
  rw [he]
  exact if_pos rfl

theorem escaped_length (v : Bytes) :
    (v.flatMap (fun c => if c = 34 ∨ c = 92 then [92, c] else [c])).length ≤ 2 * v.length := by
  induction v with
  | nil => simp
  | cons c cs ih =>
    rw [List.flatMap_cons, List.length_append, List.length_cons]
    split
    · simp only [List.length_cons, List.length_nil]
      omega
    · simp only [List.length_cons, List.length_nil]
      omega

theorem quoted_short : glaze.Short := by
  intro v _
  have hlen : (glaze.text v).length =
      (v.flatMap (fun c => if c = 34 ∨ c = 92 then [92, c] else [c])).length + 2 := by
    simp [glaze, quoted]
  have hflat := escaped_length v
  omega

end Fixture

theorem journal_reloads_begun :
    (daemon.lives (fresh (some previous) [] .missing) begun).journal = some journaled ∧ journaled.isOpen = true ∧
    (glaze.encode journaled).length ≤ maxMessageSize ∧
    decode glaze.read (glaze.encode journaled) = .ok journaled := by
  have hsound : Sound daemon.site.profile := by
    refine ⟨by decide, ?_, ?_⟩
    · intro b hb
      simp [daemon, site] at hb
    · intro b hb
      simp [daemon, site] at hb
  have hrun : (daemon.lives (fresh (some previous) [] .missing) begun).journal = some journaled ∧ journaled.isOpen = true := by
    decide +kernel
  have hids : ∀ l ∈ begun, ∀ c ∈ l.choices, hexId c.id = true := by decide
  have hreads : ∀ d, (daemon.lives (fresh (some previous) [] .missing) begun).journal = some d → glaze.Reads d := by
    intro d hd _
    have he : journaled = d := Option.some.inj (hrun.1.symm.trans hd)
    rw [← he]
    exact glaze_reads
  have h := journal_reloads daemon glaze quoted_short hsound (some previous) [] .missing begun hids hreads
  have hj := h.2.2 journaled hrun.1
  exact ⟨hrun.1, hrun.2, hj.1, hj.2.1⟩

end Monutchee.System
