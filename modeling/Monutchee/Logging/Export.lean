import Monutchee.Lib.JsonText
import Monutchee.Logging.RoundTrip
import Monutchee.System.Scanning

/-!
# Entries as JSON (journal_reader.cpp:20-42, 370-404)

`entry_to_json` pastes an object together around `json_escape`. A byte of an entry is one
character of the text, those from 0x80 included; the object is read back with the reader of
RFC 8259.
-/

namespace Monutchee.Logging
open Lib
open Monutchee.System (Bytes ascii decimal forall_byte isDigit_iff digitValue_decimal)
open Monutchee.System.Validation

/-! ### The exporter -/

/-- `priority_name` (`logging.cpp:33-40`). -/
def priorityName : Priority → Bytes
  | .emergency => ascii "emergency"
  | .alert => ascii "alert"
  | .critical => ascii "critical"
  | .error => ascii "error"
  | .warning => ascii "warning"
  | .notice => ascii "notice"
  | .info => ascii "info"
  | .debug => ascii "debug"

/-- std::hex with std::setw and std::setfill('0'). -/
def paddedHex (width n : ℕ) : Bytes :=
  let text := (Nat.toDigits 16 n).map fun c => UInt8.ofNat c.toNat
  List.replicate (width - text.length) 48 ++ text

def escapeByte (character : UInt8) : Bytes :=
  match character with
  | 34 => ascii "\\\""
  | 92 => ascii "\\\\"
  | 8 => ascii "\\b"
  | 12 => ascii "\\f"
  | 10 => ascii "\\n"
  | 13 => ascii "\\r"
  | 9 => ascii "\\t"
  | character => if character < 32 then ascii "\\u" ++ paddedHex 4 character.toNat else [character]

/-- `json_escape` (`journal_reader.cpp:20-42`). -/
def jsonEscape (value : Bytes) : Bytes := value.flatMap escapeByte

/-- The time point of an entry, a count of nanoseconds in 64 bits, is an argument of its own beside
the fields that the reader fills; duration_cast truncates it. -/
def usec (time : Int64) : ℤ := time.toInt.tdiv 1000

/-- A number of 64 bits with a sign, as a stream writes it. -/
def signed (n : ℤ) : Bytes := if n < 0 then 45 :: decimal n.natAbs else decimal n.natAbs

/-- What comes between two fields: the end of the one and the name of the next. -/
def nextField (name : String) : Bytes := ascii "\",\"" ++ ascii name ++ ascii "\":\""

/-- The loop over the changed fields. -/
def changedNames : ℕ → List Bytes → Bytes
  | _, [] => []
  | index, name :: names =>
    (if index = 0 then [] else ascii ",") ++ ascii "\"" ++ jsonEscape name ++ ascii "\"" ++
      changedNames (index + 1) names

/-- `entry_to_json` (`journal_reader.cpp:370-404`). -/
def entryToJson (time : Int64) (e : FullEntry) : Bytes :=
  ascii "\x7b\"timestamp_usec\":" ++ signed (usec time) ++
  ascii ",\"cursor\":\"" ++ jsonEscape e.cursor ++
  nextField "priority" ++ priorityName e.priority ++
  nextField "message" ++ jsonEscape e.message ++
  nextField "component" ++ jsonEscape e.component ++
  nextField "module" ++ jsonEscape e.module ++
  nextField "event" ++ jsonEscape e.event ++
  nextField "request_id" ++ jsonEscape e.requestId ++
  nextField "configuration_generation" ++ jsonEscape e.configurationGeneration ++
  nextField "unit" ++ jsonEscape e.unit ++
  nextField "executable" ++ jsonEscape e.executable ++
  nextField "source_file" ++ jsonEscape e.sourceFile ++
  nextField "source_line" ++ jsonEscape e.sourceLine ++
  nextField "source_function" ++ jsonEscape e.sourceFunction ++
  nextField "audience" ++ jsonEscape e.audience ++
  nextField "category" ++ jsonEscape e.category ++
  nextField "actor" ++ jsonEscape e.actor ++
  nextField "action" ++ jsonEscape e.action ++
  nextField "outcome" ++ jsonEscape e.outcome ++
  nextField "subject" ++ jsonEscape e.subject ++
  ascii "\",\"changed_fields\":[" ++ changedNames 0 e.changedFields ++ ascii "]\x7d"

/-! ### What a reader is to find -/

/-- The text fields of the export in their order. -/
def exportedTexts (e : FullEntry) : List Field :=
  [(ascii "cursor", e.cursor), (ascii "priority", priorityName e.priority), (ascii "message", e.message),
    (ascii "component", e.component), (ascii "module", e.module), (ascii "event", e.event),
    (ascii "request_id", e.requestId), (ascii "configuration_generation", e.configurationGeneration),
    (ascii "unit", e.unit), (ascii "executable", e.executable), (ascii "source_file", e.sourceFile),
    (ascii "source_line", e.sourceLine), (ascii "source_function", e.sourceFunction),
    (ascii "audience", e.audience), (ascii "category", e.category), (ascii "actor", e.actor),
    (ascii "action", e.action), (ascii "outcome", e.outcome), (ascii "subject", e.subject)]

/-- The bytes as the characters of a text. -/
def chars (value : Bytes) : Text := value.map UInt8.toNat

/-- The members of the object. -/
def exported (time : Int64) (e : FullEntry) : List (Text × Json) :=
  (text "timestamp_usec", .int (usec time)) ::
    ((exportedTexts e).map fun f => (chars f.1, Json.str (chars f.2))) ++
    [(text "changed_fields", .arr (e.changedFields.map fun name => .str (chars name)))]

/-- The text of each member. -/
def quoted (value : Bytes) : Text := 34 :: chars (jsonEscape value) ++ [34]

def spelledMembers (time : Int64) (e : FullEntry) : List (Text × Text) :=
  (text "timestamp_usec", chars (signed (usec time))) ::
    ((exportedTexts e).map fun f => (chars f.1, quoted f.2)) ++
    [(text "changed_fields", 91 :: Json.separated (e.changedFields.map quoted) ++ [93])]

variable {time : Int64} {e : FullEntry} {s t value : Bytes}

/-! ### Strings -/

@[simp] theorem chars_append : chars (s ++ t) = chars s ++ chars t := List.map_append

theorem chars_inj : chars s = chars t ↔ s = t :=
  List.map_inj_right fun _ _ h => UInt8.toNat_inj.mp h

/-- Each byte is written as one character of a string, and without a control byte. -/
theorem escapeByte_spec : ∀ c : UInt8, Json.encodes (chars (escapeByte c)) c.toNat = true ∧
    ∀ b ∈ chars (escapeByte c), 32 ≤ b := by
  apply forall_byte
  decide +kernel

theorem chars_jsonEscape :
    chars (jsonEscape value) = (chars value).flatMap fun n => chars (escapeByte (UInt8.ofNat n)) := by
  unfold chars jsonEscape
  rw [List.map_flatMap, List.flatMap_map]
  congr 1
  funext c
  rw [UInt8.ofNat_toNat]

theorem quoted_spelled (value : Bytes) : Json.Spelled (quoted value) (.str (chars value)) := by
  unfold quoted
  rw [chars_jsonEscape]
  apply Json.spelled_str
  intro n hn
  obtain ⟨c, -, rfl⟩ := List.mem_map.mp hn
  rw [UInt8.ofNat_toNat]
  exact (escapeByte_spec c).1

/-- A name of a priority stands for itself. -/
theorem priorityName_escape (p : Priority) : jsonEscape (priorityName p) = priorityName p := by
  cases p <;> rfl

theorem priorityName_inj {p q : Priority} (h : priorityName p = priorityName q) : p = q := by
  revert h
  cases p <;> cases q <;> decide

/-! ### The number -/

theorem chars_numeral {n : ℕ} (hn : n < 10 ^ 20) :
    Json.Numeral (chars (decimal n)) ∧ Json.digitsValue (chars (decimal n)) = n := by
  obtain ⟨hnum, hvalue⟩ := System.decimal_numeral hn
  generalize decimal n = text at hnum hvalue
  constructor
  · refine ⟨?_, ?_, ?_⟩
    · simpa [chars] using hnum.nonempty
    · intro b hb
      obtain ⟨c, hc, rfl⟩ := List.mem_map.mp hb
      have hr := isDigit_iff.mp (hnum.digits c hc)
      simp only [Json.digit, Bool.and_eq_true, decide_eq_true_eq]
      omega
    · have hhead : (chars text).head? = some 48 → text.head? = some 48 := by
        cases text with
        | nil => simp [chars]
        | cons c cs =>
          intro h
          have hc : c.toNat = (48 : UInt8).toNat := Option.some.inj h
          rw [List.head?_cons, UInt8.toNat_inj.mp hc]
      rcases hnum.canonical with hone | hcanonical
      · obtain ⟨c, rfl⟩ := List.length_eq_one_iff.mp hone
        by_cases hc : c.toNat = 48
        · exact .inl (by simp [chars, hc])
        · exact .inr (by simpa [chars] using hc)
      · exact .inr fun h => hcanonical (hhead h)
  · rw [← hvalue]
    unfold Json.digitsValue System.valueFrom chars
    rw [List.foldl_map]
    apply List.foldl_ext
    intro n c hc
    rw [digitValue_decimal, if_pos (hnum.digits c hc), Option.getD_some]

theorem usec_short (time : Int64) : (usec time).natAbs < 10 ^ 20 := by
  have hlow := time.le_toInt
  have hhigh := time.toInt_lt
  have hle : (usec time).natAbs ≤ time.toInt.natAbs := Int.natAbs_tdiv_le_natAbs _ _
  omega

theorem signed_spelled {n : ℤ} (hn : n.natAbs < 10 ^ 20) : Json.Spelled (chars (signed n)) (.int n) := by
  obtain ⟨hnum, hvalue⟩ := chars_numeral hn
  unfold signed
  by_cases hneg : n < 0
  · have h := Json.spelled_neg hnum
    rw [hvalue, show -(n.natAbs : ℤ) = n by omega] at h
    rw [if_pos hneg]
    exact h
  · have h := Json.spelled_int hnum
    rw [hvalue, show (n.natAbs : ℤ) = n by omega] at h
    rw [if_neg hneg]
    exact h

/-! ### The object -/

theorem chars_nextField (name : String) :
    chars (nextField name) = 34 :: 44 :: 34 :: chars (ascii name) ++ [34, 58, 34] := by
  have hopen : chars (ascii "\",\"") = [34, 44, 34] := by decide
  have hclose : chars (ascii "\":\"") = [34, 58, 34] := by decide
  unfold nextField
  rw [chars_append, chars_append, hopen, hclose]
  rfl

theorem chars_changedNames (index : ℕ) (names : List Bytes) (hindex : index ≠ 0) :
    chars (changedNames index names) = names.flatMap fun name => 44 :: quoted name := by
  induction names generalizing index with
  | nil => rfl
  | cons name names ih =>
    have hcomma : chars (ascii ",") = [44] := by decide
    have hquote : chars (ascii "\"") = [34] := by decide
    rw [changedNames, if_neg hindex]
    simp [ih (index + 1), hcomma, hquote, quoted]

theorem separated_flatMap (s : Text) (ss : List Text) :
    Json.separated (s :: ss) = s ++ ss.flatMap (44 :: ·) := by
  induction ss generalizing s with
  | nil => simp [Json.separated]
  | cons t ss ih => simp [Json.separated, ih]

theorem chars_changed (names : List Bytes) :
    chars (changedNames 0 names) = Json.separated (names.map quoted) := by
  cases names with
  | nil => rfl
  | cons name names =>
    have hquote : chars (ascii "\"") = [34] := by decide
    rw [changedNames, if_pos rfl, List.map_cons, separated_flatMap, List.flatMap_map]
    simp [chars_changedNames (0 + 1) names, hquote, quoted]

/-- The pasted text is an object in the grammar. -/
theorem chars_entryToJson : chars (entryToJson time e) =
    123 :: Json.separated ((spelledMembers time e).map Json.member) ++ [125] := by
  have htime : chars (ascii "\x7b\"timestamp_usec\":") = 123 :: 34 :: text "timestamp_usec" ++ [34, 58] := by rfl
  have hcursor : chars (ascii ",\"cursor\":\"") = 44 :: 34 :: chars (ascii "cursor") ++ [34, 58, 34] := by rfl
  have hchanged : chars (ascii "\",\"changed_fields\":[") = 34 :: 44 :: 34 :: text "changed_fields" ++ [34, 58, 91] := by rfl
  have hend : chars (ascii "]\x7d") = [93, 125] := by decide
  have hpriority : quoted (priorityName e.priority) = 34 :: chars (priorityName e.priority) ++ [34] := by
    rw [quoted, priorityName_escape]
  unfold entryToJson spelledMembers exportedTexts
  simp only [chars_append, chars_nextField, htime, hcursor, hchanged, hend, chars_changed, List.map_cons,
    List.map_nil, List.cons_append, List.nil_append, List.append_assoc, Json.separated, Json.member, hpriority]
  simp only [quoted, List.cons_append, List.nil_append, List.append_assoc]

/-- The names are the same for every entry. -/
theorem exported_keys : (exported time e).map Prod.fst =
    text "timestamp_usec" :: ((exportedTexts ⟨⟨0, [], .info, [], [], [], [], [], [], []⟩, [], [], [], [], [],
      [], [], [], [], [], [], []⟩).map fun f => chars f.1) ++ [text "changed_fields"] := rfl

theorem exported_text {f : Field} (hf : f ∈ exportedTexts e) : (chars f.1, .str (chars f.2)) ∈ exported time e := by
  simp only [exported, List.mem_append, List.mem_cons, List.mem_map]
  exact .inl (.inr ⟨f, hf, rfl⟩)

theorem exported_keys_spec : ((exported time e).map Prod.fst).Nodup ∧
    ∀ k ∈ (exported time e).map Prod.fst, Json.plain k = true := by
  rw [exported_keys]
  decide

theorem exported_nodup : ((exported time e).map Prod.fst).Nodup := exported_keys_spec.1

theorem exported_plain : ∀ k ∈ (exported time e).map Prod.fst, Json.plain k = true := exported_keys_spec.2

theorem members_spelled : List.Forall₂ Json.SpelledMember (spelledMembers time e) (exported time e) := by
  have hplain := @exported_plain time e
  have htexts : ∀ fs : List Field, (∀ f ∈ fs, Json.plain (chars f.1) = true) →
      List.Forall₂ Json.SpelledMember (fs.map fun f => (chars f.1, quoted f.2))
        (fs.map fun f => (chars f.1, Json.str (chars f.2))) := by
    intro fs hfs
    rw [List.forall₂_map_left_iff, List.forall₂_map_right_iff, List.forall₂_same]
    intro f hf
    exact ⟨rfl, hfs f hf, quoted_spelled f.2⟩
  have hnames : List.Forall₂ Json.Spelled (e.changedFields.map quoted)
      (e.changedFields.map fun name => Json.str (chars name)) := by
    rw [List.forall₂_map_left_iff, List.forall₂_map_right_iff, List.forall₂_same]
    intro name _
    exact quoted_spelled name
  unfold spelledMembers exported
  apply List.rel_append
  · apply List.Forall₂.cons
    · exact ⟨rfl, hplain _ (by simp [exported]), signed_spelled (usec_short time)⟩
    · apply htexts
      intro f hf
      apply hplain
      exact List.mem_map.mpr ⟨_, exported_text hf, rfl⟩
  · exact .cons ⟨rfl, hplain _ (by simp [exported]), Json.spelled_arr hnames⟩ .nil

theorem read_entryToJson : Json.read (chars (entryToJson time e)) = some (.obj (exported time e)) := by
  rw [chars_entryToJson]
  exact Json.read_spelled (Json.spelled_obj members_spelled)

theorem quoted_visible (value : Bytes) : ∀ b ∈ quoted value, 32 ≤ b := by
  intro b hb
  unfold quoted at hb
  rw [chars_jsonEscape] at hb
  simp only [List.cons_append, List.mem_cons, List.mem_append, List.mem_flatMap, List.not_mem_nil,
    or_false] at hb
  rcases hb with rfl | ⟨n, -, hb⟩ | rfl
  · decide
  · exact (escapeByte_spec _).2 b hb
  · decide

theorem member_visible {m : Text × Text} (hkey : ∀ b ∈ m.1, 32 ≤ b) (hvalue : ∀ b ∈ m.2, 32 ≤ b) :
    ∀ b ∈ Json.member m, 32 ≤ b := by
  intro b hb
  unfold Json.member at hb
  simp only [List.cons_append, List.mem_cons, List.mem_append] at hb
  rcases hb with rfl | hb | rfl | rfl | hb
  · decide
  · exact hkey b hb
  · decide
  · decide
  · exact hvalue b hb

theorem signed_visible (time : Int64) : ∀ b ∈ chars (signed (usec time)), 32 ≤ b := by
  have hdigits : ∀ b ∈ chars (decimal (usec time).natAbs), 32 ≤ b := by
    intro b hb
    have hd := (chars_numeral (usec_short time)).1.digits b hb
    simp only [Json.digit, Bool.and_eq_true, decide_eq_true_eq] at hd
    omega
  unfold signed
  split
  · intro b hb
    rcases List.mem_cons.mp hb with rfl | hb
    · decide
    · exact hdigits b hb
  · exact hdigits

theorem plain_visible {k : Text} (h : Json.plain k = true) : ∀ b ∈ k, 32 ≤ b := by
  intro b hb
  have hb := List.all_eq_true.mp h b hb
  simp only [Json.encodes, Bool.and_eq_true, decide_eq_true_eq] at hb
  exact hb.1.1.2

/-- No byte of the export is a control character. -/
theorem export_visible : ∀ c ∈ entryToJson time e, 32 ≤ c := by
  have hkeys := @exported_plain time e
  have hvalues : ∀ m ∈ spelledMembers time e,
      (∃ k ∈ (exported time e).map Prod.fst, m.1 = k) ∧ ∀ b ∈ m.2, 32 ≤ b := by
    intro m hm
    simp only [spelledMembers, List.cons_append, List.mem_cons, List.mem_append, List.mem_map,
      List.not_mem_nil, or_false] at hm
    rcases hm with rfl | ⟨f, hf, rfl⟩ | rfl
    · exact ⟨⟨_, by simp [exported], rfl⟩, signed_visible time⟩
    · exact ⟨⟨_, List.mem_map.mpr ⟨_, exported_text hf, rfl⟩, rfl⟩, quoted_visible f.2⟩
    · refine ⟨⟨_, by simp [exported], rfl⟩, ?_⟩
      have hnames := @Json.separated_all (32 ≤ ·) (by decide) (e.changedFields.map quoted) (by
        intro t ht
        obtain ⟨name, -, rfl⟩ := List.mem_map.mp ht
        exact quoted_visible name)
      intro b hb
      simp only [List.mem_cons, List.mem_append, List.not_mem_nil, or_false] at hb
      rcases hb with rfl | hb | rfl
      · decide
      · exact hnames b hb
      · decide
  have hmembers := @Json.separated_all (32 ≤ ·) (by decide) ((spelledMembers time e).map Json.member) (by
    intro t ht
    obtain ⟨m, hm, rfl⟩ := List.mem_map.mp ht
    obtain ⟨⟨k, hk, hkey⟩, hvalue⟩ := hvalues m hm
    exact member_visible (hkey ▸ plain_visible (hkeys k hk)) hvalue)
  intro c hc
  have hb : c.toNat ∈ chars (entryToJson time e) := List.mem_map_of_mem hc
  rw [chars_entryToJson] at hb
  simp only [List.cons_append, List.mem_cons, List.mem_append, List.not_mem_nil, or_false] at hb
  rw [UInt8.le_iff_toNat_le]
  rcases hb with hb | hb | hb
  · rw [hb]
    decide
  · exact hmembers _ hb
  · rw [hb]
    decide

theorem exported_inj {time' : Int64} {e' : FullEntry} (h : exported time' e' = exported time e) :
    usec time' = usec time ∧ exportedTexts e' = exportedTexts e ∧ e'.changedFields = e.changedFields := by
  unfold exported at h
  obtain ⟨hfront, hlast⟩ := List.append_inj h (by simp [exportedTexts])
  obtain ⟨htime, htexts⟩ := List.cons.inj hfront
  refine ⟨by simpa using htime, ?_, ?_⟩
  · apply List.map_injective_iff.mpr _ htexts
    rintro ⟨k, v⟩ ⟨k', v'⟩ hkv
    obtain ⟨hk, hv⟩ := Prod.mk.inj hkv
    exact Prod.ext (chars_inj.mp hk) (chars_inj.mp (Json.str.inj hv))
  · have hnames := Json.arr.inj (Prod.mk.inj (List.cons.inj hlast).1).2
    apply List.map_injective_iff.mpr _ hnames
    intro n n' hn
    exact chars_inj.mp (Json.str.inj hn)

/-- The export is one JSON object without a control byte, from which a reader has the time, the
priority, every text field and the changed fields; entries that differ in one of them differ in
the export. -/
theorem entry_to_json_round_trip (time : Int64) (e : FullEntry) :
    (∀ c ∈ entryToJson time e, 32 ≤ c) ∧
    (∃ members, Json.read (chars (entryToJson time e)) = some (.obj members) ∧
      (members.map Prod.fst).Nodup ∧
      members.lookup (text "timestamp_usec") = some (.int (usec time)) ∧
      (∀ f ∈ exportedTexts e, members.lookup (chars f.1) = some (.str (chars f.2))) ∧
      members.lookup (text "changed_fields") = some (.arr (e.changedFields.map fun name => .str (chars name)))) ∧
    ∀ (time' : Int64) (e' : FullEntry), entryToJson time' e' = entryToJson time e →
      usec time' = usec time ∧ e'.priority = e.priority ∧ exportedTexts e' = exportedTexts e ∧
        e'.changedFields = e.changedFields := by
  refine ⟨export_visible, ⟨exported time e, read_entryToJson, exported_nodup, ?_, ?_, ?_⟩, ?_⟩
  · exact Json.lookup_of_mem exported_nodup (by simp [exported])
  · intro f hf
    exact Json.lookup_of_mem exported_nodup (exported_text hf)
  · exact Json.lookup_of_mem exported_nodup (by simp [exported])
  · intro time' e' h
    have hread := @read_entryToJson time' e'
    rw [h, read_entryToJson, Option.some.injEq, Json.obj.injEq] at hread
    obtain ⟨htime, htexts, hnames⟩ := exported_inj hread.symm
    have hpriority : priorityName e'.priority = priorityName e.priority := by
      simp only [exportedTexts, List.cons.injEq, Prod.mk.injEq, true_and] at htexts
      exact htexts.2.1
    exact ⟨htime, priorityName_inj hpriority, htexts, hnames⟩

/-- Quotes, backslashes and control bytes side by side, before the epoch. -/
def awkward : FullEntry :=
  { timestamp := 0, cursor := ascii "s=1", message := [34, 92, 10, 31, 0, 255, 34], audience := ascii "user",
    changedFields := [[92, 34], []] }

theorem entry_to_json_round_trip_awkward :
    ∃ members, Json.read (chars (entryToJson (-1500) awkward)) = some (.obj members) ∧
      members.lookup (text "timestamp_usec") = some (.int (-1)) ∧
      members.lookup (text "message") = some (.str [34, 92, 10, 31, 0, 255, 34]) ∧
      entryToJson (-1500) awkward ≠ entryToJson (-1500) { awkward with changedFields := [] } := by
  obtain ⟨-, ⟨members, hread, -, htime, htexts, -⟩, hinj⟩ := entry_to_json_round_trip (-1500) awkward
  refine ⟨members, hread, htime, htexts (ascii "message", awkward.message) (by simp [exportedTexts]), ?_⟩
  intro h
  have hnames := (hinj (-1500) { awkward with changedFields := [] } h.symm).2.2.2
  simp [awkward] at hnames

end Monutchee.Logging
