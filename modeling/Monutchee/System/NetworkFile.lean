import Monutchee.Lib.Ini
import Monutchee.System.Native
import Monutchee.System.Subnet

/-!
# Rendered network files (network_config.cpp, backend.cpp:104-109, 157-177)

`renderNetwork` writes the file of one interface for networkd, and `dhcpEnabled` reads the mode
back at discovery. The text is a document of plain lines, so a reader of sections and
assignments finds what the configuration says and nothing that a value could have put there.
-/

namespace Monutchee.System
open Lib Lib.Ini Validation

/-! ### renderNetwork (network_config.cpp:5-34) -/

def metric (c : NetworkConfig) : Bytes := decimal (if c.preferredDefault then 100 else 600)

def useDns (c : NetworkConfig) : Bytes := if c.dnsServers.isEmpty then ascii "yes" else ascii "no"

def renderRoute (c : NetworkConfig) (hasPreferred : Bool) : Bytes :=
  if c.mode = .staticIpv4 ∧ c.gateway ≠ [] then
    ascii "\n[Route]\nGateway=" ++ c.gateway ++ ascii "\n" ++
      if hasPreferred then ascii "Metric=" ++ metric c ++ ascii "\n" else []
  else []

/-- One round of the loop over the last three sections. -/
def renderSection (c : NetworkConfig) (hasPreferred : Bool) (name : Bytes) : Bytes :=
  ascii "\n[" ++ name ++ ascii "]\nUseDNS=" ++ useDns c ++ ascii "\n" ++
    (if name = ascii "DHCPv4" then ascii "UseDomains=yes\n" else []) ++
    -- DHCPv6 supplies addresses; IPv6 default routes come from RA.
    if hasPreferred ∧ name ≠ ascii "DHCPv6" then ascii "RouteMetric=" ++ metric c ++ ascii "\n" else []

def networkSections : List Bytes := [ascii "DHCPv4", ascii "DHCPv6", ascii "IPv6AcceptRA"]

def networkText (c : NetworkConfig) (hasPreferred : Bool) : Bytes :=
  ascii "# Generated by MNC System Manager\n[Match]\nName=" ++ c.interface ++
    ascii "\n\n[Network]\nDHCP=" ++ (if c.mode = .dhcp then ascii "yes" else ascii "no") ++
    ascii "\nIPv6AcceptRA=yes\n" ++
    (if c.mode = .staticIpv4 then
      ascii "Address=" ++ c.address ++ ascii "/" ++ decimal c.prefixLength.toNat ++ ascii "\n"
    else []) ++
    c.dnsServers.flatMap (fun dns => ascii "DNS=" ++ dns ++ ascii "\n") ++
    renderRoute c hasPreferred ++ networkSections.flatMap (renderSection c hasPreferred)

def renderNetwork (c : NetworkConfig) (hasPreferred : Bool) : Except Error Bytes := do
  validateNetwork [c]
  return networkText c hasPreferred

/-! ### dhcpEnabled (backend.cpp:157-177) -/

/-- The files that networkd reports for a link. -/
structure LinkInfo where
  networkFile : Bytes
  networkFileDropins : List Bytes := []
  deriving DecidableEq, Repr

/-- readFile (storage.cpp:30-45) with its default limit, on the contents of the files. -/
def readFile (files : Bytes → Option Bytes) (path : Bytes) : Except Error Bytes :=
  match files path with
  | none => .error ⟨.unavailable, ascii "cannot read " ++ path⟩
  | some v => if 1048576 < v.length then .error ⟨.invalidArgument, ascii "file too large"⟩ else .ok v

def trim (v : Bytes) : Bytes := strip v

def dhcpValue (v : Bytes) : Bool := v == ascii "yes" || v == ascii "true" || v == ascii "ipv4"

/-- One line of a file: the section that is open, and the value so far. -/
def dhcpLine (s : Bytes × Bool) (line : Bytes) : Bytes × Bool :=
  let line := trim line
  if (ascii "[").isPrefixOf line then (line, s.2)
  else if s.1 = ascii "[Network]" ∧ (ascii "DHCP=").isPrefixOf line = true then
    (s.1, dhcpValue (trim (line.drop 5)))
  else s

def dhcpFile (dhcp : Bool) (text : Bytes) : Bool := ((lines text).foldl dhcpLine ([], dhcp)).2

def dhcpEnabled (files : Bytes → Option Bytes) (info : LinkInfo) : Except Error Bool :=
  if info.networkFile.isEmpty then
    .error ⟨.unavailable, ascii "interface is not managed by networkd"⟩
  else
    (info.networkFile :: info.networkFileDropins).foldlM (fun dhcp file => do
      let text ← readFile files file
      return dhcpFile dhcp text) false

/-! ### The file as a document -/

def sectionLines (c : NetworkConfig) (hasPreferred : Bool) (name : Bytes) : List Line :=
  [.blank, .header name, .entry (ascii "UseDNS") (useDns c)] ++
    (if name = ascii "DHCPv4" then [.entry (ascii "UseDomains") (ascii "yes")] else []) ++
    if hasPreferred ∧ name ≠ ascii "DHCPv6" then [.entry (ascii "RouteMetric") (metric c)] else []

def addressText (c : NetworkConfig) : Bytes :=
  c.address ++ ascii "/" ++ decimal c.prefixLength.toNat

def headLines (c : NetworkConfig) : List Line :=
  [.comment (ascii " Generated by MNC System Manager"), .header (ascii "Match"),
    .entry (ascii "Name") c.interface, .blank, .header (ascii "Network"),
    .entry (ascii "DHCP") (if c.mode = .dhcp then ascii "yes" else ascii "no"),
    .entry (ascii "IPv6AcceptRA") (ascii "yes")]

def routeLines (c : NetworkConfig) (hasPreferred : Bool) : List Line :=
  if c.mode = .staticIpv4 ∧ c.gateway ≠ [] then
    [.blank, .header (ascii "Route"), .entry (ascii "Gateway") c.gateway] ++
      if hasPreferred then [.entry (ascii "Metric") (metric c)] else []
  else []

def networkLines (c : NetworkConfig) (hasPreferred : Bool) : List Line :=
  headLines c ++
    (if c.mode = .staticIpv4 then [.entry (ascii "Address") (addressText c)] else []) ++
    c.dnsServers.map (.entry (ascii "DNS")) ++ routeLines c hasPreferred ++
    networkSections.flatMap (sectionLines c hasPreferred)

theorem render_append (a b : List Line) : render (a ++ b) = render a ++ render b := by
  simp [render]

theorem render_entry (key value : Bytes) :
    render [.entry key value] = key ++ 61 :: value ++ [10] := by
  simp [render, Line.text]

theorem networkText_render (c : NetworkConfig) (hasPreferred : Bool) :
    networkText c hasPreferred = render (networkLines c hasPreferred) := by
  have hend : ascii "\n" = [10] := by decide
  have hhead : render (headLines c) =
      ascii "# Generated by MNC System Manager\n[Match]\nName=" ++ c.interface ++
        ascii "\n\n[Network]\nDHCP=" ++ (if c.mode = .dhcp then ascii "yes" else ascii "no") ++
        ascii "\nIPv6AcceptRA=yes\n" := by
    have h₁ : ascii "# Generated by MNC System Manager\n[Match]\nName=" =
        35 :: ascii " Generated by MNC System Manager" ++ [10] ++ (91 :: ascii "Match" ++ [93]) ++ [10] ++
          ascii "Name" ++ [61] := by rfl
    have h₂ : ascii "\n\n[Network]\nDHCP=" =
        [10] ++ [10] ++ (91 :: ascii "Network" ++ [93]) ++ [10] ++ ascii "DHCP" ++ [61] := by rfl
    have h₃ : ascii "\nIPv6AcceptRA=yes\n" =
        [10] ++ ascii "IPv6AcceptRA" ++ [61] ++ ascii "yes" ++ [10] := by rfl
    rw [h₁, h₂, h₃]
    simp [render, headLines, Line.text]
  have haddress : render (if c.mode = .staticIpv4 then [.entry (ascii "Address") (addressText c)] else []) =
      if c.mode = .staticIpv4 then
        ascii "Address=" ++ c.address ++ ascii "/" ++ decimal c.prefixLength.toNat ++ ascii "\n"
      else [] := by
    have h₁ : ascii "Address=" = ascii "Address" ++ [61] := by decide
    split
    · rw [render_entry, h₁, hend]
      simp [addressText]
    · rfl
  have hdns : render (c.dnsServers.map (.entry (ascii "DNS"))) =
      c.dnsServers.flatMap fun dns => ascii "DNS=" ++ dns ++ ascii "\n" := by
    have h₁ : ascii "DNS=" = ascii "DNS" ++ [61] := by decide
    rw [h₁, hend]
    simp [render, List.flatMap_map, Line.text]
  have hroute : render (routeLines c hasPreferred) = renderRoute c hasPreferred := by
    have h₁ : ascii "\n[Route]\nGateway=" =
        [10] ++ (91 :: ascii "Route" ++ [93]) ++ [10] ++ ascii "Gateway" ++ [61] := by rfl
    have h₂ : ascii "Metric=" = ascii "Metric" ++ [61] := by decide
    unfold routeLines renderRoute
    split
    · rw [h₁, h₂, hend]
      split
      · simp [render, Line.text]
      · simp [render, Line.text]
    · rfl
  have hsection : ∀ name, render (sectionLines c hasPreferred name) = renderSection c hasPreferred name := by
    intro name
    have h₁ : ascii "\n[" = [10, 91] := by decide
    have h₂ : ascii "]\nUseDNS=" = 93 :: 10 :: ascii "UseDNS" ++ [61] := by decide
    have h₃ : ascii "UseDomains=yes\n" = ascii "UseDomains" ++ [61] ++ ascii "yes" ++ [10] := by
      decide
    have h₄ : ascii "RouteMetric=" = ascii "RouteMetric" ++ [61] := by decide
    unfold sectionLines renderSection
    rw [render_append, render_append, h₁, h₂, h₃, h₄, hend]
    congr 1
    · congr 1
      · simp [render, Line.text]
      · split
        · simp [render, Line.text]
        · rfl
    · split
      · simp [render, Line.text]
      · rfl
  have hsections : ∀ names : List Bytes, render (names.flatMap (sectionLines c hasPreferred)) =
      names.flatMap (renderSection c hasPreferred) := by
    intro names
    induction names with
    | nil => rfl
    | cons name names ih => rw [List.flatMap_cons, List.flatMap_cons, render_append, hsection, ih]
  rw [networkLines, render_append, render_append, render_append, render_append, hhead, haddress, hdns,
    hroute, hsections, networkText]

/-! ### The lines are plain -/

/-- A text without white space, such as every accepted name and address. -/
def Solid (v : Bytes) : Prop := ∀ c ∈ v, isSpace c = false

theorem Solid.plain {v : Bytes} (h : Solid v) : Line.PlainValue v := by
  refine ⟨?_, fun c hc => h c (List.mem_of_mem_head? hc)⟩
  intro hm
  have hs := h 10 hm
  revert hs
  decide

theorem Solid.append {a b : Bytes} (ha : Solid a) (hb : Solid b) : Solid (a ++ b) := by
  intro c hc
  rcases List.mem_append.mp hc with hc | hc
  · exact ha c hc
  · exact hb c hc

theorem solid_nil : Solid [] := by simp [Solid]

/-- The bytes of a name or a number are no white space. -/
theorem nameByte_solid {c : UInt8} (h : (isLetter c || isDigit c || c == 95 || c == 45) = true) :
    isSpace c = false := by
  revert h
  revert c
  intro c
  exact forall_byte
    (P := fun c => (isLetter c || isDigit c || c == 95 || c == 45) = true → isSpace c = false) (by decide +kernel) c

theorem digit_solid {c : UInt8} (h : isDigit c = true) : isSpace c = false :=
  nameByte_solid (by simp [h])

theorem solid_decimal {n : ℕ} (h : n < 10 ^ 20) : Solid (decimal n) := fun c hc =>
  digit_solid ((decimal_numeral h).1.digits c hc)

theorem UnicastQuad.dotted {text : Bytes} {a : ℕ} (h : UnicastQuad text a) : DottedQuad text := by
  obtain ⟨w, x, y, z, hw, hx, hy, hz, htext, -⟩ := h
  exact ⟨w, x, y, z, by omega, hx, hy, hz, htext⟩

theorem DottedQuad.solid {text : Bytes} (h : DottedQuad text) : Solid text := by
  intro c hc
  rcases h.bytes.2.2 c hc with hd | rfl
  · exact digit_solid hd
  · decide

theorem InterfaceName.solid {name : Bytes} (h : InterfaceName name) : Solid name := by
  intro c hc
  apply nameByte_solid
  have hb := h.bytes c hc
  simp only [Bool.or_eq_true, beq_iff_eq, or_assoc]
  exact hb

/-- The words of the file. -/
theorem solid_words : ∀ word ∈ [ascii "yes", ascii "no", ascii "/", ascii "Match", ascii "Network",
    ascii "Route", ascii "DHCPv4", ascii "DHCPv6", ascii "IPv6AcceptRA"], Solid word := by
  unfold Solid
  decide +kernel

theorem solid_ascii : Solid (ascii "yes") ∧ Solid (ascii "no") ∧ Solid (ascii "/") :=
  ⟨solid_words _ (by simp), solid_words _ (by simp), solid_words _ (by simp)⟩

theorem metric_solid (c : NetworkConfig) : Solid (metric c) := by
  unfold metric
  split
  · exact solid_decimal (by decide)
  · exact solid_decimal (by decide)

theorem useDns_solid (c : NetworkConfig) : Solid (useDns c) := by
  unfold useDns
  split
  · exact solid_ascii.1
  · exact solid_ascii.2.1

/-- The values that the file of an accepted configuration carries. -/
structure SolidConfig (c : NetworkConfig) : Prop where
  name : Solid c.interface
  address : Solid c.address
  gateway : Solid c.gateway
  servers : ∀ dns ∈ c.dnsServers, Solid dns

theorem solidConfig_of {c : NetworkConfig} (h : Entry.Accepted c) : SolidConfig c := by
  have hservers : ∀ dns ∈ c.dnsServers, Solid dns := by
    intro dns hd
    obtain ⟨a, ha⟩ := h.servers.2 dns hd
    exact ha.dotted.solid
  cases hm : c.mode with
  | dhcp =>
    obtain ⟨ha, hg⟩ := h.dhcp hm
    refine ⟨h.name.solid, ?_, ?_, hservers⟩
    · rw [ha]
      exact solid_nil
    · rw [hg]
      exact solid_nil
  | staticIpv4 =>
    obtain ⟨a, haddress, -, hgateway⟩ := (h.static hm).addresses
    refine ⟨h.name.solid, haddress.dotted.solid, ?_, hservers⟩
    by_cases hg : c.gateway = []
    · rw [hg]
      exact solid_nil
    · obtain ⟨g, hg, -⟩ := hgateway hg
      exact hg.dotted.solid

theorem addressText_solid {c : NetworkConfig} (h : SolidConfig c) : Solid (addressText c) := by
  have hlt := c.prefixLength.toNat_lt
  exact (h.address.append solid_ascii.2.2).append (solid_decimal (by omega))

/-- The keys of the file. -/
def networkKeys : List Bytes :=
  [ascii "Name", ascii "DHCP", ascii "IPv6AcceptRA", ascii "Address", ascii "DNS", ascii "Gateway",
    ascii "Metric", ascii "UseDNS", ascii "UseDomains", ascii "RouteMetric"]

theorem networkKeys_plain : ∀ key ∈ networkKeys, Line.PlainKey key := by
  have hall : ∀ key ∈ networkKeys, key ≠ [] ∧ (∀ c ∈ key, c ≠ 61 ∧ isSpace c = false) ∧
      key.head?.all (fun c => c != 35 && c != 59 && c != 91) = true := by
    decide +kernel
  intro key hk
  exact Line.PlainKey.of (hall key hk)

/-- A line of the file: no assignment has a value with white space, and its key is one of these. -/
def FileLine : Line → Prop
  | .blank => True
  | .comment t => 10 ∉ t
  | .header name => Solid name
  | .entry key value => key ∈ networkKeys ∧ Solid value

theorem FileLine.plain {l : Line} (h : FileLine l) : l.Plain := by
  cases l with
  | blank => trivial
  | comment t => exact h
  | header name => exact (Solid.plain h).noBreak
  | entry key value => exact ⟨networkKeys_plain key h.1, h.2.plain⟩

theorem FileLine.items {doc : List Line} (h : ∀ l ∈ doc, FileLine l) (s : Bytes) :
    items s (doc.map (·.stripped)) = Ini.items s doc := by
  induction doc generalizing s with
  | nil => rfl
  | cons l doc ih =>
    have hdoc := ih fun x hx => h x (List.mem_cons_of_mem _ hx)
    have hl := h l (List.mem_cons_self ..)
    cases l with
    | blank => exact hdoc s
    | comment t => exact hdoc s
    | header name => exact hdoc name
    | entry key value =>
      have hv : (Line.entry key value).stripped = .entry key value := by
        rw [Line.stripped, rdropWhile_free hl.2]
      rw [List.map_cons, hv, Ini.items, Ini.items, hdoc]

theorem sectionLines_file (c : NetworkConfig) (hasPreferred : Bool) {name : Bytes} (h : Solid name) :
    ∀ l ∈ sectionLines c hasPreferred name, FileLine l := by
  unfold sectionLines
  rw [List.forall_mem_append, List.forall_mem_append]
  refine ⟨⟨?_, ?_⟩, ?_⟩
  · simp only [List.forall_mem_cons]
    exact ⟨trivial, h, ⟨by simp [networkKeys], useDns_solid c⟩, by simp⟩
  · split
    · rw [List.forall_mem_singleton]
      exact ⟨by simp [networkKeys], solid_ascii.1⟩
    · simp
  · split
    · rw [List.forall_mem_singleton]
      exact ⟨by simp [networkKeys], metric_solid c⟩
    · simp

theorem networkLines_file {c : NetworkConfig} (h : SolidConfig c) (hasPreferred : Bool) :
    ∀ l ∈ networkLines c hasPreferred, FileLine l := by
  unfold networkLines
  simp only [List.forall_mem_append]
  refine ⟨⟨⟨⟨?_, ?_⟩, ?_⟩, ?_⟩, ?_⟩
  · have hmode : Solid (if c.mode = .dhcp then ascii "yes" else ascii "no") := by
      split
      · exact solid_ascii.1
      · exact solid_ascii.2.1
    have hcomment : (10 : UInt8) ∉ ascii " Generated by MNC System Manager" := by decide
    unfold headLines
    simp only [List.forall_mem_cons]
    exact ⟨hcomment, solid_words _ (by simp), ⟨by simp [networkKeys], h.name⟩, trivial, solid_words _ (by simp),
      ⟨by simp [networkKeys], hmode⟩, ⟨by simp [networkKeys], solid_ascii.1⟩, by simp⟩
  · split
    · rw [List.forall_mem_singleton]
      exact ⟨by simp [networkKeys], addressText_solid h⟩
    · simp
  · intro l hl
    obtain ⟨dns, hd, rfl⟩ := List.mem_map.mp hl
    exact ⟨by simp [networkKeys], h.servers dns hd⟩
  · unfold routeLines
    split
    · rw [List.forall_mem_append]
      refine ⟨?_, ?_⟩
      · simp only [List.forall_mem_cons]
        exact ⟨trivial, solid_words _ (by simp), ⟨by simp [networkKeys], h.gateway⟩, by simp⟩
      · split
        · rw [List.forall_mem_singleton]
          exact ⟨by simp [networkKeys], metric_solid c⟩
        · simp
    · simp
  · intro l hl
    obtain ⟨name, hn, hl⟩ := List.mem_flatMap.mp hl
    have hname : Solid name := by
      apply solid_words
      exact List.mem_append_right [ascii "yes", ascii "no", ascii "/", ascii "Match", ascii "Network",
        ascii "Route"] hn
    exact sectionLines_file c hasPreferred hname l hl

/-! ### What the file says -/

def sectionItems (c : NetworkConfig) (hasPreferred : Bool) (name : Bytes) : List Item :=
  [⟨name, ascii "UseDNS", useDns c⟩] ++
    (if name = ascii "DHCPv4" then [⟨name, ascii "UseDomains", ascii "yes"⟩] else []) ++
    if hasPreferred ∧ name ≠ ascii "DHCPv6" then [⟨name, ascii "RouteMetric", metric c⟩] else []

/-- The assignments of the file, one after another. -/
def networkItems (c : NetworkConfig) (hasPreferred : Bool) : List Item :=
  [⟨ascii "Match", ascii "Name", c.interface⟩,
    ⟨ascii "Network", ascii "DHCP", if c.mode = .dhcp then ascii "yes" else ascii "no"⟩,
    ⟨ascii "Network", ascii "IPv6AcceptRA", ascii "yes"⟩] ++
    (if c.mode = .staticIpv4 then [⟨ascii "Network", ascii "Address", addressText c⟩] else []) ++
    c.dnsServers.map (fun dns => ⟨ascii "Network", ascii "DNS", dns⟩) ++
    (if c.mode = .staticIpv4 ∧ c.gateway ≠ [] then
      ⟨ascii "Route", ascii "Gateway", c.gateway⟩ ::
        if hasPreferred then [⟨ascii "Route", ascii "Metric", metric c⟩] else []
    else []) ++
    networkSections.flatMap (sectionItems c hasPreferred)

theorem items_section (c : NetworkConfig) (hasPreferred : Bool) (s name : Bytes) :
    items s (sectionLines c hasPreferred name) = sectionItems c hasPreferred name := by
  unfold sectionLines sectionItems
  by_cases h₁ : name = ascii "DHCPv4"
  · by_cases h₂ : hasPreferred ∧ name ≠ ascii "DHCPv6"
    · rw [if_pos h₁, if_pos h₁, if_pos h₂, if_pos h₂]
      rfl
    · rw [if_pos h₁, if_pos h₁, if_neg h₂, if_neg h₂]
      rfl
  · by_cases h₂ : hasPreferred ∧ name ≠ ascii "DHCPv6"
    · rw [if_neg h₁, if_neg h₁, if_pos h₂, if_pos h₂]
      rfl
    · rw [if_neg h₁, if_neg h₁, if_neg h₂, if_neg h₂]
      rfl

theorem items_sections (c : NetworkConfig) (hasPreferred : Bool) (names : List Bytes) (s : Bytes) :
    items s (names.flatMap (sectionLines c hasPreferred)) =
      names.flatMap (sectionItems c hasPreferred) := by
  induction names generalizing s with
  | nil => rfl
  | cons name names ih =>
    rw [List.flatMap_cons, List.flatMap_cons, items_append, items_section, ih]

theorem items_dns (servers : List Bytes) (s : Bytes) :
    items s (servers.map (.entry (ascii "DNS"))) = servers.map (fun dns => ⟨s, ascii "DNS", dns⟩) ∧
      openSection s (servers.map (.entry (ascii "DNS"))) = s := by
  induction servers with
  | nil => exact ⟨rfl, rfl⟩
  | cons dns servers ih =>
    refine ⟨?_, ih.2⟩
    rw [List.map_cons, List.map_cons, items, ih.1]

theorem items_network (c : NetworkConfig) (hasPreferred : Bool) :
    items [] (networkLines c hasPreferred) = networkItems c hasPreferred := by
  have hhead : openSection [] (headLines c) = ascii "Network" := rfl
  have haddress : openSection (ascii "Network")
      (if c.mode = .staticIpv4 then [.entry (ascii "Address") (addressText c)] else []) =
        ascii "Network" := by
    split
    · rfl
    · rfl
  unfold networkLines networkItems
  simp only [List.append_assoc]
  rw [items_append, hhead, items_append, haddress, items_append, (items_dns _ _).1, (items_dns _ _).2,
    items_append, items_sections]
  congr 1
  congr 1
  · split
    · rfl
    · rfl
  · congr 1
    congr 1
    unfold routeLines
    split
    · split
      · rfl
      · rfl
    · rfl

/-- An address with its prefix, as networkd reads it. -/
def readAddress (v : Bytes) : Option (Bytes × ℕ) :=
  match splitAt 47 v with
  | (address, some p) =>
    match fromChars 10 p with
    | some (n, []) => some (address, n)
    | _ => none
  | _ => none

/-- The sections and keys that a file may hold. -/
def knownAssignments : List (Bytes × Bytes) :=
  [(ascii "Match", ascii "Name"), (ascii "Network", ascii "DHCP"),
    (ascii "Network", ascii "IPv6AcceptRA"), (ascii "Network", ascii "Address"),
    (ascii "Network", ascii "DNS"), (ascii "Route", ascii "Gateway"), (ascii "Route", ascii "Metric"),
    (ascii "DHCPv4", ascii "UseDNS"), (ascii "DHCPv4", ascii "UseDomains"),
    (ascii "DHCPv4", ascii "RouteMetric"), (ascii "DHCPv6", ascii "UseDNS"),
    (ascii "IPv6AcceptRA", ascii "UseDNS"), (ascii "IPv6AcceptRA", ascii "RouteMetric")]

/-- The assignments of a file say what the configuration says, and nothing else. -/
structure Decodes (c : NetworkConfig) (hasPreferred : Bool) (is : List Item) : Prop where
  name : values (ascii "Match") (ascii "Name") is = [c.interface]
  mode : values (ascii "Network") (ascii "DHCP") is =
    [if c.mode = .dhcp then ascii "yes" else ascii "no"]
  address : (values (ascii "Network") (ascii "Address") is).map readAddress =
    if c.mode = .staticIpv4 then [some (c.address, c.prefixLength.toNat)] else []
  servers : values (ascii "Network") (ascii "DNS") is = c.dnsServers
  gateway : values (ascii "Route") (ascii "Gateway") is = if c.gateway = [] then [] else [c.gateway]
  routeMetric : values (ascii "Route") (ascii "Metric") is =
    if hasPreferred = true ∧ c.gateway ≠ [] then
      [if c.preferredDefault then ascii "100" else ascii "600"] else []
  metrics : ∀ s ∈ [ascii "DHCPv4", ascii "IPv6AcceptRA"], values s (ascii "RouteMetric") is =
    if hasPreferred then [if c.preferredDefault then ascii "100" else ascii "600"] else []
  useDns : ∀ s ∈ networkSections, values s (ascii "UseDNS") is =
    [if c.dnsServers = [] then ascii "yes" else ascii "no"]
  fixed : values (ascii "Network") (ascii "IPv6AcceptRA") is = [ascii "yes"] ∧
    values (ascii "DHCPv4") (ascii "UseDomains") is = [ascii "yes"]
  only : ∀ i ∈ is, (i.group, i.key) ∈ knownAssignments

theorem readAddress_written {c : NetworkConfig} (hs : 47 ∉ c.address) :
    readAddress (addressText c) = some (c.address, c.prefixLength.toNat) := by
  have hlt := c.prefixLength.toNat_lt
  have hslash : ascii "/" = [47] := by decide
  have htext : addressText c = c.address ++ 47 :: decimal c.prefixLength.toNat := by
    simp [addressText, hslash]
  obtain ⟨hnum, hval⟩ := decimal_numeral (n := c.prefixLength.toNat) (by omega)
  have hread : fromChars 10 (decimal c.prefixLength.toNat) = some (c.prefixLength.toNat, []) := by
    rw [fromChars_iff]
    refine ⟨hnum.nonempty, ?_, hval.symm, by omega⟩
    intro d hd
    rw [digitValue_decimal, if_pos (hnum.digits d hd)]
    rfl
  rw [readAddress, htext, splitAt_append hs]
  dsimp only
  rw [hread]

theorem metric_eq (c : NetworkConfig) :
    metric c = if c.preferredDefault then ascii "100" else ascii "600" := by
  unfold metric
  cases c.preferredDefault
  · rfl
  · rfl

@[simp] theorem values_dns (s key : Bytes) (servers : List Bytes) :
    values s key (servers.map fun dns => ⟨ascii "Network", ascii "DNS", dns⟩) =
      if ascii "Network" = s ∧ ascii "DNS" = key then servers else [] := by
  induction servers with
  | nil => simp
  | cons dns servers ih =>
    rw [List.map_cons, values_cons, ih]
    by_cases h : ascii "Network" = s ∧ ascii "DNS" = key
    · rw [if_pos h, if_pos h, if_pos h]
    · rw [if_neg h, if_neg h, if_neg h]

@[simp] theorem values_if (s key : Bytes) {P : Prop} [Decidable P] (a b : List Item) :
    values s key (if P then a else b) = if P then values s key a else values s key b := by
  split
  · rfl
  · rfl

theorem sectionItems_known (c : NetworkConfig) (hasPreferred : Bool) {name : Bytes}
    (hn : name ∈ networkSections) :
    ∀ i ∈ sectionItems c hasPreferred name, (i.group, i.key) ∈ knownAssignments := by
  have hdns : ∀ name ∈ networkSections, (name, ascii "UseDNS") ∈ knownAssignments := by
    simp [networkSections, knownAssignments]
  have hmetric : ∀ name ∈ networkSections, name ≠ ascii "DHCPv6" →
      (name, ascii "RouteMetric") ∈ knownAssignments := by
    simp [networkSections, knownAssignments]
  unfold sectionItems
  simp only [List.forall_mem_append, List.forall_mem_singleton]
  refine ⟨⟨hdns name hn, ?_⟩, ?_⟩
  · split
    · rename_i h
      rw [List.forall_mem_singleton, h]
      simp [knownAssignments]
    · simp
  · split
    · rename_i h
      rw [List.forall_mem_singleton]
      exact hmetric name hn h.2
    · simp

theorem networkItems_known (c : NetworkConfig) (hasPreferred : Bool) :
    ∀ i ∈ networkItems c hasPreferred, (i.group, i.key) ∈ knownAssignments := by
  unfold networkItems
  simp only [List.forall_mem_append]
  refine ⟨⟨⟨⟨?_, ?_⟩, ?_⟩, ?_⟩, ?_⟩
  · simp only [List.forall_mem_cons]
    exact ⟨by simp [knownAssignments], by simp [knownAssignments], by simp [knownAssignments], by simp⟩
  · split
    · rw [List.forall_mem_singleton]
      show (ascii "Network", ascii "Address") ∈ knownAssignments
      simp [knownAssignments]
    · simp
  · intro i hi
    obtain ⟨dns, -, rfl⟩ := List.mem_map.mp hi
    show (ascii "Network", ascii "DNS") ∈ knownAssignments
    simp [knownAssignments]
  · split
    · rw [List.forall_mem_cons]
      constructor
      · show (ascii "Route", ascii "Gateway") ∈ knownAssignments
        simp [knownAssignments]
      · split
        · rw [List.forall_mem_singleton]
          show (ascii "Route", ascii "Metric") ∈ knownAssignments
          simp [knownAssignments]
        · simp
    · simp
  · intro i hi
    obtain ⟨name, hn, hi⟩ := List.mem_flatMap.mp hi
    exact sectionItems_known c hasPreferred hn i hi

theorem networkItems_decode {c : NetworkConfig} (h : Entry.Accepted c) (hasPreferred : Bool) :
    Decodes c hasPreferred (networkItems c hasPreferred) := by
  have hroute : c.gateway ≠ [] → c.mode = .staticIpv4 := by
    intro hg
    cases hm : c.mode with
    | dhcp => exact absurd (h.dhcp hm).2 hg
    | staticIpv4 => rfl
  have hslash : c.mode = .staticIpv4 → 47 ∉ c.address := by
    intro hm hs
    obtain ⟨a, ha, -⟩ := (h.static hm).addresses
    have hb := ha.dotted.bytes.2.2 47 hs
    revert hb
    decide
  have hmetric := metric_eq c
  have huse : useDns c = if c.dnsServers = [] then ascii "yes" else ascii "no" := by
    unfold useDns
    simp
  have hread := fun hm => readAddress_written (hslash hm)
  constructor
  case name => simp +decide [networkItems, networkSections, sectionItems]
  case mode => simp +decide [networkItems, networkSections, sectionItems]
  case address =>
    by_cases hm : c.mode = .staticIpv4
    · simp +decide [networkItems, networkSections, sectionItems, hm, hread hm]
    · simp +decide [networkItems, networkSections, sectionItems, hm]
  case servers => simp +decide [networkItems, networkSections, sectionItems]
  case gateway =>
    by_cases hg : c.gateway = []
    · simp +decide [networkItems, networkSections, sectionItems, hg]
    · simp +decide [networkItems, networkSections, sectionItems, hg, hroute hg]
  case routeMetric =>
    by_cases hg : c.gateway = []
    · simp +decide [networkItems, networkSections, sectionItems, hg]
    · simp +decide [networkItems, networkSections, sectionItems, hg, hroute hg, hmetric]
  case metrics => simp +decide [networkItems, networkSections, sectionItems, hmetric]
  case useDns => simp +decide [networkItems, networkSections, sectionItems, huse]
  case fixed => simp +decide [networkItems, networkSections, sectionItems]
  case only => exact networkItems_known c hasPreferred

/-! ### The size of the file -/

theorem DottedQuad.short {text : Bytes} (h : DottedQuad text) : text.length ≤ 15 := by
  obtain ⟨w, x, y, z, hw, hx, hy, hz, rfl⟩ := h
  have h₁ := decimal_short hw
  have h₂ := decimal_short hx
  have h₃ := decimal_short hy
  have h₄ := decimal_short hz
  rw [joined_cons (by simp), joined_cons (by simp), joined_cons (by simp), joined_singleton]
  simp only [List.length_append, List.length_cons]
  omega

theorem metric_short (c : NetworkConfig) : (metric c).length = 3 := by
  rw [metric_eq]
  split
  · decide
  · decide

theorem renderSection_short (c : NetworkConfig) (hasPreferred : Bool) {name : Bytes}
    (hn : name.length ≤ 12) : (renderSection c hasPreferred name).length ≤ 80 := by
  have hm := metric_short c
  have hu : (useDns c).length ≤ 3 := by
    unfold useDns
    split
    · decide
    · decide
  have hdomains : (if name = ascii "DHCPv4" then ascii "UseDomains=yes\n" else []).length ≤ 15 := by
    split
    · decide
    · decide
  have hmetric : (if hasPreferred = true ∧ name ≠ ascii "DHCPv6" then
      ascii "RouteMetric=" ++ metric c ++ ascii "\n" else []).length ≤ 16 := by
    split
    · have h₁ : (ascii "RouteMetric=").length = 12 := by decide
      have h₂ : (ascii "\n").length = 1 := by decide
      simp only [List.length_append]
      omega
    · decide
  have h₁ : (ascii "\n[").length = 2 := by decide
  have h₂ : (ascii "]\nUseDNS=").length = 9 := by decide
  have h₃ : (ascii "\n").length = 1 := by decide
  unfold renderSection
  simp only [List.length_append] at hdomains hmetric ⊢
  omega

theorem renderRoute_short {c : NetworkConfig} (hg : c.gateway.length ≤ 15) (hasPreferred : Bool) :
    (renderRoute c hasPreferred).length ≤ 50 := by
  have hm := metric_short c
  have h₁ : (ascii "\n[Route]\nGateway=").length = 17 := by decide
  have h₂ : (ascii "Metric=").length = 7 := by decide
  have h₃ : (ascii "\n").length = 1 := by decide
  unfold renderRoute
  split
  · split
    · simp only [List.length_append]
      omega
    · simp only [List.length_append, List.length_nil]
      omega
  · simp

/-- A file stays far below the limit of readFile. -/
theorem networkText_short {c : NetworkConfig} (h : Entry.Accepted c) (hasPreferred : Bool) :
    (networkText c hasPreferred).length ≤ 1000 := by
  have hname := h.name.length.2
  have haddress : c.address.length ≤ 15 ∧ c.gateway.length ≤ 15 := by
    cases hm : c.mode with
    | dhcp =>
      obtain ⟨ha, hg⟩ := h.dhcp hm
      rw [ha, hg]
      decide
    | staticIpv4 =>
      obtain ⟨a, ha, -, hgateway⟩ := (h.static hm).addresses
      refine ⟨ha.dotted.short, ?_⟩
      by_cases hg : c.gateway = []
      · rw [hg]
        decide
      · obtain ⟨g, hg, -⟩ := hgateway hg
        exact hg.dotted.short
  have hdns : (c.dnsServers.flatMap fun dns => ascii "DNS=" ++ dns ++ ascii "\n").length ≤
      20 * c.dnsServers.length := by
    have hall := h.servers.2
    generalize c.dnsServers = servers at hall
    induction servers with
    | nil => simp
    | cons dns servers ih =>
      obtain ⟨a, ha⟩ := hall dns (List.mem_cons_self ..)
      have hd := ha.dotted.short
      have hrest := ih fun x hx => hall x (List.mem_cons_of_mem _ hx)
      have h₁ : (ascii "DNS=").length = 4 := by decide
      have h₂ : (ascii "\n").length = 1 := by decide
      rw [List.flatMap_cons, List.length_append, List.length_cons]
      simp only [List.length_append] at hrest ⊢
      omega
  have hfour := h.servers.1
  have hroute := renderRoute_short haddress.2 hasPreferred
  have hsections : (networkSections.flatMap (renderSection c hasPreferred)).length ≤ 240 := by
    have h₁ := @renderSection_short c hasPreferred (ascii "DHCPv4") (by decide)
    have h₂ := @renderSection_short c hasPreferred (ascii "DHCPv6") (by decide)
    have h₃ := @renderSection_short c hasPreferred (ascii "IPv6AcceptRA") (by decide)
    unfold networkSections
    simp only [List.flatMap_cons, List.flatMap_nil, List.length_append, List.length_nil]
    omega
  have hmode : (if c.mode = .dhcp then ascii "yes" else ascii "no").length ≤ 3 := by
    split
    · decide
    · decide
  have hprefix : (decimal c.prefixLength.toNat).length ≤ 3 :=
    decimal_short (by have := c.prefixLength.toNat_lt; omega)
  have hstatic : (if c.mode = .staticIpv4 then
      ascii "Address=" ++ c.address ++ ascii "/" ++ decimal c.prefixLength.toNat ++ ascii "\n"
      else []).length ≤ 28 := by
    have h₁ : (ascii "Address=").length = 8 := by decide
    have h₂ : (ascii "/").length = 1 := by decide
    have h₃ : (ascii "\n").length = 1 := by decide
    have ha := haddress.1
    split
    · simp only [List.length_append]
      omega
    · simp
  have h₁ : (ascii "# Generated by MNC System Manager\n[Match]\nName=").length = 47 := by rfl
  have h₂ : (ascii "\n\n[Network]\nDHCP=").length = 17 := by decide
  have h₃ : (ascii "\nIPv6AcceptRA=yes\n").length = 18 := by decide
  unfold networkText
  simp only [List.length_append] at hdns hsections hstatic ⊢
  omega

/-! ### The reader at discovery -/

/-- dhcpLine on a line of a document. -/
def dhcpStep (s : Bytes × Bool) : Line → Bytes × Bool
  | .header name => (91 :: name ++ [93], s.2)
  | .entry key value =>
    if s.1 = ascii "[Network]" ∧ key = ascii "DHCP" then (s.1, dhcpValue (value.rdropWhile isSpace)) else s
  | _ => s

theorem dhcp_begins {key v : Bytes} (hk : 61 ∉ key) :
    (ascii "DHCP=").isPrefixOf (key ++ 61 :: v) = true ↔ key = ascii "DHCP" := by
  have htext : ascii "DHCP=" = ascii "DHCP" ++ [61] := by decide
  have hfree : (61 : UInt8) ∉ ascii "DHCP" := by decide
  rw [List.isPrefixOf_iff_prefix, htext]
  constructor
  · rintro ⟨t, ht⟩
    rw [List.append_assoc, List.singleton_append] at ht
    have hs := @splitAt_append 61 (ascii "DHCP") t hfree
    rw [ht, splitAt_append hk] at hs
    injection hs
  · rintro rfl
    exact ⟨v, by simp⟩

theorem dhcpLine_text {l : Line} (h : l.Plain) (s : Bytes × Bool) :
    dhcpLine s l.text = dhcpStep s l := by
  have hopen : ascii "[" = [91] := by decide
  have hdhcp : ascii "DHCP=" = 68 :: ascii "HCP=" := by decide
  cases l with
  | blank =>
    have hstrip : trim [] = [] := rfl
    rw [dhcpLine, Line.text, hstrip, hopen, hdhcp]
    simp [dhcpStep, List.isPrefixOf]
  | comment t =>
    have hstrip : trim (35 :: t) = 35 :: t.rdropWhile isSpace := strip_cons (by decide) t
    rw [dhcpLine, Line.text, hstrip, hopen, hdhcp]
    simp [dhcpStep, List.isPrefixOf]
  | header name =>
    have hclose : isSpace 93 = false := by decide
    have hend : (name ++ [93]).rdropWhile isSpace = name ++ [93] := rdropWhile_append hclose name []
    have hstrip : trim (91 :: (name ++ [93])) = 91 :: (name ++ [93]) := by
      rw [trim, strip_cons (by decide), hend]
    rw [dhcpLine, Line.text, List.cons_append, hstrip, hopen]
    simp [dhcpStep, List.isPrefixOf]
  | entry key value =>
    obtain ⟨hk, hv⟩ := h
    have hstrip := strip_entry hk value
    have hval : strip (value.rdropWhile isSpace) = value.rdropWhile isSpace := by
      rw [strip_eq fun c hc => hv.head c (rdropWhile_head hc), List.rdropWhile_idempotent]
    have hfree : (61 : UInt8) ∉ key := fun hm => (hk.bytes 61 hm).1 rfl
    have hbracket : ¬ (ascii "[").isPrefixOf (key ++ 61 :: value.rdropWhile isSpace) = true := by
      rw [hopen]
      cases key with
      | nil => exact absurd rfl hk.nonempty
      | cons b bs =>
        have hb := (hk.head b rfl).2.2
        simp [List.isPrefixOf, Ne.symm hb]
    rw [dhcpLine, Line.text, trim, hstrip]
    rw [if_neg hbracket]
    simp only [dhcp_begins hfree, dhcpStep]
    by_cases hkey : s.1 = ascii "[Network]" ∧ key = ascii "DHCP"
    · rw [if_pos hkey, if_pos hkey, hkey.2]
      have hdrop : (ascii "DHCP" ++ 61 :: value.rdropWhile isSpace).drop 5 = value.rdropWhile isSpace := by
        have hlen : (ascii "DHCP").length = 4 := by decide
        rw [← List.singleton_append, ← List.append_assoc]
        apply List.drop_left'
        simp [hlen]
      rw [hdrop, trim, hval]
    · rw [if_neg hkey, if_neg hkey]

theorem dhcpFile_render {doc : List Line} (h : ∀ l ∈ doc, l.Plain) (dhcp : Bool) :
    dhcpFile dhcp (render doc) = (doc.foldl dhcpStep ([], dhcp)).2 := by
  have hfold : ∀ (s : Bytes × Bool), (doc.map (·.text)).foldl dhcpLine s = doc.foldl dhcpStep s := by
    induction doc with
    | nil => exact fun _ => rfl
    | cons l doc ih =>
      intro s
      have hdoc := ih fun x hx => h x (List.mem_cons_of_mem _ hx)
      rw [List.map_cons, List.foldl_cons, List.foldl_cons, dhcpLine_text (h l (List.mem_cons_self ..)),
        hdoc]
  rw [dhcpFile, lines_render h, hfold]

def notDhcp : Line → Bool
  | .entry key _ => key != ascii "DHCP"
  | _ => true

/-- Lines without the key keep the value. -/
theorem dhcpStep_keeps {doc : List Line} (h : ∀ l ∈ doc, notDhcp l = true) (s : Bytes × Bool) :
    (doc.foldl dhcpStep s).2 = s.2 := by
  induction doc generalizing s with
  | nil => rfl
  | cons l doc ih =>
    have hl := h l (List.mem_cons_self ..)
    have hstep : (dhcpStep s l).2 = s.2 := by
      cases l with
      | entry key value =>
        have hkey : key ≠ ascii "DHCP" := by simpa [notDhcp] using hl
        rw [dhcpStep, if_neg fun he => hkey he.2]
      | _ => rfl
    rw [List.foldl_cons, ih (fun x hx => h x (List.mem_cons_of_mem _ hx)), hstep]

/-- Discovery reads the mode that was written. -/
theorem dhcpFile_network {c : NetworkConfig} (h : Entry.Accepted c) (hasPreferred dhcp : Bool) :
    dhcpFile dhcp (networkText c hasPreferred) = decide (c.mode = .dhcp) := by
  have hplain : ∀ l ∈ networkLines c hasPreferred, l.Plain := fun l hl =>
    (networkLines_file (solidConfig_of h) hasPreferred l hl).plain
  have hhead : ((headLines c).foldl dhcpStep ([], dhcp)).2 = decide (c.mode = .dhcp) := by
    have hyes : dhcpValue ((ascii "yes").rdropWhile isSpace) = true := by decide
    have hno : dhcpValue ((ascii "no").rdropWhile isSpace) = false := by decide
    unfold headLines
    by_cases hm : c.mode = .dhcp
    · simp +decide [dhcpStep, hm, hyes]
    · simp +decide [dhcpStep, hm, hno]
  have hsections : ∀ name, ∀ l ∈ sectionLines c hasPreferred name, notDhcp l = true := by
    intro name
    unfold sectionLines
    simp only [List.forall_mem_append, List.forall_mem_cons]
    refine ⟨⟨⟨rfl, rfl, by simp +decide [notDhcp], by simp⟩, ?_⟩, ?_⟩
    · split
      · simp +decide
      · simp
    · split
      · simp +decide [notDhcp]
      · simp
  have hrest : ∀ l ∈ (if c.mode = .staticIpv4 then [.entry (ascii "Address") (addressText c)] else []) ++
      (c.dnsServers.map (.entry (ascii "DNS")) ++ (routeLines c hasPreferred ++
        networkSections.flatMap (sectionLines c hasPreferred))), notDhcp l = true := by
    simp only [List.forall_mem_append]
    refine ⟨?_, ?_, ?_, ?_⟩
    · split
      · simp +decide [notDhcp]
      · simp
    · simp +decide [notDhcp]
    · unfold routeLines
      split
      · split
        · simp +decide [notDhcp]
        · simp +decide [notDhcp]
      · simp
    · intro l hl
      obtain ⟨name, -, hl⟩ := List.mem_flatMap.mp hl
      exact hsections name l hl
  rw [networkText_render, dhcpFile_render hplain, networkLines, List.append_assoc, List.append_assoc,
    List.append_assoc, List.foldl_append, dhcpStep_keeps hrest, hhead]

theorem dhcpFile_clock (dhcp : Bool) : dhcpFile dhcp Native.portText = dhcp := by
  cases dhcp with
  | false => decide
  | true => decide

/-- The drop-ins of the clock policy change nothing. -/
theorem dhcpFiles_clock {files : Bytes → Option Bytes} {dropins : List Bytes}
    (h : ∀ d ∈ dropins, files d = some Native.portText) (dhcp : Bool) :
    dropins.foldlM (fun dhcp file => do
      let text ← readFile files file
      return dhcpFile dhcp text) dhcp = (.ok dhcp : Except Error Bool) := by
  induction dropins with
  | nil => rfl
  | cons d dropins ih =>
    have hread : readFile files d = .ok Native.portText := by
      have hshort : ¬ 1048576 < Native.portText.length := by decide
      rw [readFile, h d (List.mem_cons_self ..)]
      dsimp only
      rw [if_neg hshort]
    have hrest := ih fun x hx => h x (List.mem_cons_of_mem _ hx)
    rw [List.foldlM_cons, bind_ok]
    refine ⟨dhcp, ?_, hrest⟩
    rw [bind_ok]
    refine ⟨Native.portText, hread, ?_⟩
    rw [dhcpFile_clock]
    rfl

theorem dhcpEnabled_network {c : NetworkConfig} (h : Entry.Accepted c) (hasPreferred : Bool)
    {files : Bytes → Option Bytes} {info : LinkInfo} (hname : info.networkFile ≠ [])
    (hfile : files info.networkFile = some (networkText c hasPreferred))
    (hdropins : ∀ d ∈ info.networkFileDropins, files d = some Native.portText) :
    dhcpEnabled files info = .ok (decide (c.mode = .dhcp)) := by
  have hread : readFile files info.networkFile = .ok (networkText c hasPreferred) := by
    have hshort := networkText_short h hasPreferred
    rw [readFile, hfile]
    dsimp only
    rw [if_neg (by omega)]
  have hmanaged : ¬ info.networkFile.isEmpty = true := by simpa using hname
  rw [dhcpEnabled, if_neg hmanaged, List.foldlM_cons, bind_ok]
  refine ⟨decide (c.mode = .dhcp), ?_, dhcpFiles_clock hdropins _⟩
  rw [bind_ok]
  refine ⟨networkText c hasPreferred, hread, ?_⟩
  rw [dhcpFile_network h]
  rfl

/-! ### The whole round trip -/

theorem parse_networkText {c : NetworkConfig} (h : Entry.Accepted c) (hasPreferred : Bool) :
    parse (networkText c hasPreferred) = networkItems c hasPreferred := by
  have hfile := networkLines_file (solidConfig_of h) hasPreferred
  rw [networkText_render, parse_render fun l hl => (hfile l hl).plain, FileLine.items hfile,
    items_network]

/-- Equal but for the prefix of a DHCP entry, which has no address. -/
def SameNetwork (c d : NetworkConfig) : Prop :=
  c = d ∨ (c.mode = .dhcp ∧ d.mode = .dhcp ∧ c = { d with prefixLength := c.prefixLength })

theorem decodes_same {c d : NetworkConfig} {hasPreferred : Bool} {is : List Item}
    (hc : Entry.Accepted c) (hd : Entry.Accepted d)
    (hcp : c.preferredDefault = true → hasPreferred = true)
    (hdp : d.preferredDefault = true → hasPreferred = true)
    (h : Decodes c hasPreferred is) (h' : Decodes d hasPreferred is) : SameNetwork c d := by
  have hname : c.interface = d.interface := by simpa using h.name.symm.trans h'.name
  have hservers : c.dnsServers = d.dnsServers := h.servers.symm.trans h'.servers
  have hgateway : c.gateway = d.gateway := by
    have hg := h.gateway.symm.trans h'.gateway
    by_cases hcg : c.gateway = []
    · by_cases hdg : d.gateway = []
      · rw [hcg, hdg]
      · simp [hcg, hdg] at hg
    · by_cases hdg : d.gateway = []
      · simp [hcg, hdg] at hg
      · simpa [hcg, hdg] using hg
  have hpreferred : c.preferredDefault = d.preferredDefault := by
    cases hp : hasPreferred with
    | false =>
      rw [hp] at hcp hdp
      have h₁ : c.preferredDefault = false := by simpa using hcp
      have h₂ : d.preferredDefault = false := by simpa using hdp
      rw [h₁, h₂]
    | true =>
      have hm := (h.metrics _ (List.mem_cons_self ..)).symm.trans (h'.metrics _ (List.mem_cons_self ..))
      have hne : ascii "100" ≠ ascii "600" := by decide
      rw [if_pos hp, if_pos hp] at hm
      cases h₁ : c.preferredDefault
      · cases h₂ : d.preferredDefault
        · rfl
        · simp [h₁, h₂, hne.symm] at hm
      · cases h₂ : d.preferredDefault
        · simp [h₁, h₂, hne] at hm
        · rfl
  have hmode : c.mode = d.mode := by
    have hm := h.mode.symm.trans h'.mode
    have hne : ascii "yes" ≠ ascii "no" := by decide
    cases h₁ : c.mode
    · cases h₂ : d.mode
      · rfl
      · simp [h₁, h₂, hne] at hm
    · cases h₂ : d.mode
      · simp [h₁, h₂, hne.symm] at hm
      · rfl
  cases hm : c.mode with
  | dhcp =>
    have hdm := hmode.symm.trans hm
    obtain ⟨ha, -⟩ := hc.dhcp hm
    obtain ⟨ha', -⟩ := hd.dhcp hdm
    right
    refine ⟨hm, hdm, ?_⟩
    cases c
    cases d
    simp_all
  | staticIpv4 =>
    have hdm := hmode.symm.trans hm
    have hadd := h.address.symm.trans h'.address
    rw [if_pos hm, if_pos hdm] at hadd
    simp only [List.cons.injEq, Option.some.injEq, Prod.mk.injEq, and_true] at hadd
    have hprefix : c.prefixLength = d.prefixLength := UInt8.toNat_inj.mp hadd.2
    left
    cases c
    cases d
    simp_all

/-- The file of an accepted configuration decodes to the configuration; two configurations with
one file agree; and discovery reads the mode from the file and the drop-ins of the clock policy. -/
theorem network_file_decodes (c : NetworkConfig) (hasPreferred : Bool)
    (h : validateNetwork [c] = .ok ()) (hp : c.preferredDefault = true → hasPreferred = true) :
    ∃ text, renderNetwork c hasPreferred = .ok text ∧
      Decodes c hasPreferred (parse text) ∧
      (∀ d : NetworkConfig, validateNetwork [d] = .ok () →
        (d.preferredDefault = true → hasPreferred = true) →
        renderNetwork d hasPreferred = .ok text → SameNetwork c d) ∧
      ∀ (files : Bytes → Option Bytes) (info : LinkInfo), info.networkFile ≠ [] →
        files info.networkFile = some text →
        (∀ d ∈ info.networkFileDropins, files d = some Native.portText) →
        dhcpEnabled files info = .ok (decide (c.mode = .dhcp)) := by
  have hc := (validateNetwork_iff.mp h).entries c (List.mem_singleton_self c)
  have hrender : ∀ {d : NetworkConfig} {text : Bytes}, validateNetwork [d] = .ok () →
      (renderNetwork d hasPreferred = .ok text ↔ networkText d hasPreferred = text) := by
    intro d text hd
    rw [renderNetwork, then_ok]
    constructor
    · rintro ⟨-, ht⟩
      exact Except.ok.inj ht
    · rintro rfl
      exact ⟨hd, rfl⟩
  have hdecode : Decodes c hasPreferred (parse (networkText c hasPreferred)) := by
    rw [parse_networkText hc]
    exact networkItems_decode hc hasPreferred
  refine ⟨networkText c hasPreferred, (hrender h).mpr rfl, hdecode, ?_, ?_⟩
  · intro d hd hdp hsame
    have hd' := (validateNetwork_iff.mp hd).entries d (List.mem_singleton_self d)
    refine decodes_same hc hd' hp hdp hdecode ?_
    rw [← (hrender hd).mp hsame, parse_networkText hd']
    exact networkItems_decode hd' hasPreferred
  · intro files info hname hfile hdropins
    exact dhcpEnabled_network hc hasPreferred hname hfile hdropins

theorem network_file_decodes_static :
    ∃ text, renderNetwork { interface := ascii "end0", mode := .staticIpv4, address := ascii "10.0.0.2"
                            gateway := ascii "10.0.0.1", preferredDefault := true } true = .ok text ∧
      parse text ≠ [] := by
  obtain ⟨text, hr, hd, -⟩ := network_file_decodes
    { interface := ascii "end0", mode := .staticIpv4, address := ascii "10.0.0.2"
      gateway := ascii "10.0.0.1", preferredDefault := true } true (by decide) (fun _ => rfl)
  refine ⟨text, hr, ?_⟩
  intro hnil
  have hname := hd.name
  rw [hnil] at hname
  simp at hname

end Monutchee.System
