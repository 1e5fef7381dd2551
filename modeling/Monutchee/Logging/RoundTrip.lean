import Monutchee.Logging.Reader
import Monutchee.Logging.UserLog
import Monutchee.System.Daemon

/-!
# Public records, written and read back

`UserLog::write` (logging.cpp:147-206) lays an event out as journal fields, and
`current_entry` (journal_reader.cpp:51-141) reads an entry of the journal. The two share no
code: the names, the separator, the numbers of the priorities and the list of changed fields
are spelled out on both sides. journald stores each field as one datum NAME=value and adds
fields of its own, whose names begin with an underscore.
-/

namespace Monutchee.Logging
open Monutchee.System (Bytes ascii UserEvent decimal)
open Monutchee.System.Validation

/-! ### The writer -/

inductive Audience where
  | developer | user
  deriving DecidableEq, Repr

/-- LogBase refuses an empty component (logging.cpp:138-145). -/
structure LogBase where
  component : Bytes
  module : Bytes
  named : component ≠ []

structure SourceLocation where
  file : Bytes
  line : ℕ
  function : Bytes
  deriving DecidableEq, Repr

/-- reserved (logging.cpp:87-94). -/
def reserved (name : Bytes) : Bool :=
  [ascii "MESSAGE", ascii "PRIORITY", ascii "MNC_COMPONENT", ascii "MNC_MODULE", ascii "MNC_EVENT",
    ascii "MNC_LOG_AUDIENCE", ascii "MNC_EVENT_CATEGORY", ascii "MNC_ACTOR", ascii "MNC_ACTION",
    ascii "MNC_OUTCOME", ascii "MNC_SUBJECT", ascii "MNC_CHANGED_FIELDS"].contains name ||
  (ascii "CODE_").isPrefixOf name

/-- `LogBase::emit` (`logging.cpp:147-172`): the record for the sink. -/
def LogBase.emit (L : LogBase) (audience : Audience) (priority : Priority) (message event : Bytes)
    (fields : List Field) (source : Option SourceLocation) : List Field :=
  [(ascii "MESSAGE", message), (ascii "PRIORITY", decimal priority.value),
    (ascii "MNC_COMPONENT", L.component),
    (ascii "MNC_LOG_AUDIENCE", match audience with
      | .user => ascii "user"
      | .developer => ascii "developer")] ++
  (if L.module.isEmpty then [] else [(ascii "MNC_MODULE", L.module)]) ++
  (if event.isEmpty then [] else [(ascii "MNC_EVENT", event)]) ++
  (match source with
    | some s => [(ascii "CODE_FILE", s.file), (ascii "CODE_LINE", decimal s.line), (ascii "CODE_FUNC", s.function)]
    | none => []) ++
  fields.filter fun f => validFieldName f.1 && !(reserved f.1 && audience == .developer)

/-- `UserLog::write` (`logging.cpp:196-206`) with its two arguments. -/
def LogBase.writeUser (L : LogBase) (priority : Priority) (e : UserEvent) : Option (List Field) :=
  if validUserEvent e then
    some (L.emit .user priority e.message e.code (eventFields e) none)
  else none

/-- The priorities that the manager uses. -/
def ofManager : System.Priority → Priority
  | .error => .error
  | .warning => .warning
  | .info => .info

/-- The record of the manager's events is this one. -/
theorem record_emit (L : LogBase) (e : UserEvent) :
    record L.component L.module e =
      L.emit .user (ofManager e.priority) e.message e.code (eventFields e) none := by
  have hp : priorityNumber e.priority = decimal (ofManager e.priority).value := by
    cases e.priority with
    | error => decide
    | warning => decide
    | info => decide
  have haud : (Audience.user == Audience.developer) = false := rfl
  unfold record LogBase.emit
  rw [hp]
  simp [haud]

/-! ### The journal -/

/-- journal_field (logging.cpp:22-30). -/
def journalField (name value : Bytes) : Bytes := name ++ ascii "=" ++ value

/-- What journald knows of an entry besides its fields: time, cursor and the trusted fields. -/
structure Stamp where
  timestamp : ℕ
  cursor : Bytes
  own : List Field
  trusted : ∀ f ∈ own, f.1.head? = some 95

/-- JournalSink::write (logging.cpp:119-137) as journald stores it. -/
def Stamp.store (J : Stamp) (fields : List Field) : List Bytes :=
  (fields ++ J.own).map fun f => journalField f.1 f.2

/-- sd_journal_get_data: the datum of a field. -/
def getData (data : List Bytes) (name : Bytes) : Option Bytes :=
  data.find? fun d => (name ++ ascii "=").isPrefixOf d

/-! ### The reader -/

/-- The characters of a name in the list (journal_reader.cpp:63-66). -/
def listedByte (c : UInt8) : Bool :=
  isLower c || isUpper c || isDigit c || c == 46 || c == 45 || c == 95

/-- The loop of changed_fields over the text between the brackets. -/
def changedLoop (value : Bytes) (result : List Bytes) : List Bytes :=
  match value with
  | [] => result
  | c :: rest =>
    if c != 34 then []
    else
      let name := rest.takeWhile (· != 34)
      if name.length == rest.length || name.isEmpty || 128 < name.length then []
      else if !name.all listedByte then []
      else if 64 < (result ++ [name]).length then []
      else
        let rest := rest.drop (name.length + 1)
        if rest.isEmpty then result ++ [name]
        else if !(ascii ",\"").isPrefixOf rest then []
        else changedLoop (rest.drop 1) (result ++ [name])
termination_by value.length
decreasing_by
  simp only [List.length_drop, List.length_cons]
  omega

/-- changed_fields (journal_reader.cpp:51-75). -/
def changedFields (value : Bytes) : List Bytes :=
  if value == ascii "[]" then []
  else if 64 * 132 < value.length || !(ascii "[\"").isPrefixOf value || !(ascii "\"]").isSuffixOf value then []
  else changedLoop (value.drop 1).dropLast []

/-- field (journal_reader.cpp:78-90). -/
def field (data : List Bytes) (name : Bytes) : Bytes :=
  match getData data name with
  | none => []
  | some d => if d.contains 61 then (d.dropWhile (· != 61)).drop 1 else []

/-- `Entry` (`journal_reader.hpp:34-57`) with the fields that no query reads. -/
structure FullEntry extends Entry where
  actor : Bytes := []
  action : Bytes := []
  outcome : Bytes := []
  subject : Bytes := []
  changedFields : List Bytes := []
  requestId : Bytes := []
  configurationGeneration : Bytes := []
  systemdUnit : Bytes := []
  executable : Bytes := []
  sourceFile : Bytes := []
  sourceLine : Bytes := []
  sourceFunction : Bytes := []
  deriving DecidableEq, Repr

def Priority.ofValue : ℕ → Option Priority
  | 0 => some .emergency
  | 1 => some .alert
  | 2 => some .critical
  | 3 => some .error
  | 4 => some .warning
  | 5 => some .notice
  | 6 => some .info
  | 7 => some .debug
  | _ => none

/-- The number before any other character (journal_reader.cpp:132-139). -/
def readPriority (text : Bytes) : Priority :=
  match fromChars 10 text with
  | some (n, _) => (Priority.ofValue n).getD .info
  | none => .info

/-- `current_entry` (`journal_reader.cpp:92-141`). -/
def currentEntry (J : Stamp) (data : List Bytes) : FullEntry where
  timestamp := J.timestamp
  cursor := J.cursor
  message := field data (ascii "MESSAGE")
  component := field data (ascii "MNC_COMPONENT")
  module := field data (ascii "MNC_MODULE")
  event := field data (ascii "MNC_EVENT")
  audience :=
    if (field data (ascii "MNC_LOG_AUDIENCE")).isEmpty then ascii "developer"
    else field data (ascii "MNC_LOG_AUDIENCE")
  category := field data (ascii "MNC_EVENT_CATEGORY")
  actor := field data (ascii "MNC_ACTOR")
  action := field data (ascii "MNC_ACTION")
  outcome := field data (ascii "MNC_OUTCOME")
  subject := field data (ascii "MNC_SUBJECT")
  changedFields := Logging.changedFields (field data (ascii "MNC_CHANGED_FIELDS"))
  requestId := field data (ascii "MNC_REQUEST_ID")
  configurationGeneration := field data (ascii "MNC_CONFIGURATION_GENERATION")
  systemdUnit := field data (ascii "_SYSTEMD_UNIT")
  unit :=
    if (field data (ascii "UNIT")).isEmpty then field data (ascii "_SYSTEMD_UNIT")
    else field data (ascii "UNIT")
  executable := field data (ascii "_EXE")
  sourceFile := field data (ascii "CODE_FILE")
  sourceLine := field data (ascii "CODE_LINE")
  sourceFunction := field data (ascii "CODE_FUNC")
  priority := readPriority (field data (ascii "PRIORITY"))

/-! ### Fields -/

variable {J : Stamp} {fields : List Field} {name value n v : Bytes}

/-- The separator is the first one: two names without it are equal if one datum begins with the
other's name and separator. -/
theorem prefix_separator (hname : 61 ∉ name) (hn : 61 ∉ n) :
    (name ++ [61]).isPrefixOf (n ++ 61 :: v) = decide (n = name) := by
  induction name generalizing n with
  | nil =>
    cases n with
    | nil => simp
    | cons b bs =>
      have hb : ¬ b = 61 := fun h => hn (h ▸ List.mem_cons_self ..)
      simp [List.isPrefixOf, Ne.symm hb]
  | cons a as ih =>
    have ha : ¬ a = 61 := fun h => hname (h ▸ List.mem_cons_self ..)
    cases n with
    | nil => simp [List.isPrefixOf, ha]
    | cons b bs =>
      have ih := ih (n := bs) (fun h => hname (List.mem_cons_of_mem _ h))
        (fun h => hn (List.mem_cons_of_mem _ h))
      simp only [List.cons_append, List.isPrefixOf, ih]
      by_cases hab : a = b
      · simp [hab]
      · simp [hab, Ne.symm hab]

theorem separator_eq : ascii "=" = [61] := by decide

/-- What follows the first separator. -/
theorem split_datum (hn : 61 ∉ n) :
    (journalField n v).contains 61 = true ∧ ((journalField n v).dropWhile (· != 61)).drop 1 = v := by
  unfold journalField
  rw [separator_eq]
  refine ⟨by simp, ?_⟩
  induction n with
  | nil => simp
  | cons b bs ih =>
    have hb : ¬ b = 61 := fun h => hn (h ▸ List.mem_cons_self ..)
    have ih := ih fun h => hn (List.mem_cons_of_mem _ h)
    simpa [hb] using ih

/-- The first field of a name, among others without a separator in their names. -/
theorem find_first {pre post : List Field} (hnames : ∀ f ∈ pre, 61 ∉ f.1 ∧ f.1 ≠ name) (hname : 61 ∉ name) :
    (pre ++ (name, value) :: post).find?
      (fun f => (name ++ ascii "=").isPrefixOf (journalField f.1 f.2)) = some (name, value) := by
  have hdatum : ∀ f : Field, 61 ∉ f.1 →
      (name ++ ascii "=").isPrefixOf (journalField f.1 f.2) = decide (f.1 = name) := by
    intro f hf
    unfold journalField
    rw [separator_eq]
    simpa using prefix_separator (v := f.2) hname hf
  have hpre : pre.find? (fun f => (name ++ ascii "=").isPrefixOf (journalField f.1 f.2)) = none := by
    rw [List.find?_eq_none]
    intro f hf
    rw [hdatum f (hnames f hf).1]
    simpa using (hnames f hf).2
  rw [List.find?_append, hpre, Option.none_or, List.find?_cons, hdatum (name, value) hname]
  simp

/-- The first field of a name is read back as it was written. -/
theorem field_first {pre post : List Field} (hnames : ∀ f ∈ pre, 61 ∉ f.1 ∧ f.1 ≠ name)
    (hname : 61 ∉ name) : field (J.store (pre ++ (name, value) :: post)) name = value := by
  have hget : getData (J.store (pre ++ (name, value) :: post)) name = some (journalField name value) := by
    unfold getData Stamp.store
    rw [List.find?_map]
    change Option.map _ ((pre ++ (name, value) :: post ++ J.own).find? fun f =>
      (name ++ ascii "=").isPrefixOf (journalField f.1 f.2)) = _
    rw [List.append_assoc, List.cons_append, find_first hnames hname]
    rfl
  unfold field
  rw [hget]
  simp only
  rw [if_pos (split_datum hname).1]
  exact (split_datum hname).2

/-- A field of the record is read back as it was written. -/
theorem field_stored (hnames : ∀ f ∈ fields, 61 ∉ f.1) (hnodup : (fields.map Prod.fst).Nodup)
    (hm : (name, value) ∈ fields) : field (J.store fields) name = value := by
  obtain ⟨pre, post, rfl⟩ := List.append_of_mem hm
  rw [List.map_append, List.map_cons, List.nodup_append] at hnodup
  apply field_first
  · intro f hf
    refine ⟨hnames f (List.mem_append_left _ hf), ?_⟩
    exact hnodup.2.2 _ (List.mem_map_of_mem hf) _ (List.mem_cons_self ..)
  · exact hnames _ hm

/-- A field that was not written; journald's own fields have other names. -/
theorem field_absent (hnames : ∀ f ∈ fields, 61 ∉ f.1 ∧ f.1 ≠ name) (hname : 61 ∉ name)
    (hhead : ∃ b bs, name = b :: bs ∧ b ≠ 95) : field (J.store fields) name = [] := by
  have hget : getData (J.store fields) name = none := by
    unfold getData Stamp.store
    rw [List.find?_map, Option.map_eq_none_iff, List.find?_eq_none]
    intro f hf
    change ¬ (name ++ ascii "=").isPrefixOf (journalField f.1 f.2) = true
    rcases List.mem_append.mp hf with hf | hf
    · unfold journalField
      rw [separator_eq]
      have hp := prefix_separator (v := f.2) hname (hnames f hf).1
      rw [List.append_assoc]
      rw [show ([61] ++ f.2 : Bytes) = 61 :: f.2 from rfl, hp]
      simp [(hnames f hf).2]
    · obtain ⟨b, bs, rfl, hb⟩ := hhead
      have htrust := J.trusted f hf
      obtain ⟨m, u⟩ := f
      cases m with
      | nil => simp at htrust
      | cons x xs =>
        have hx : x = 95 := by simpa using htrust
        subst hx
        simp [journalField, List.isPrefixOf, hb]
  unfold field
  rw [hget]

/-! ### The list of changed fields -/

/-- The text between the brackets. -/
def commaList : List Bytes → Bytes
  | [] => []
  | [n] => 34 :: n ++ [34]
  | n :: m :: ns => (34 :: n ++ [34]) ++ 44 :: commaList (m :: ns)

theorem changedJson_eq (names : List Bytes) : changedJson names = 91 :: commaList names ++ [93] := by
  have hq : ascii "\"" = [34] := by decide
  have hc : ascii "," = [44] := by decide
  have ho : ascii "[" = [91] := by decide
  have hr : ascii "]" = [93] := by decide
  have hlist : ((names.map fun name => [34] ++ name ++ [34]).intersperse [44]).flatten =
      commaList names := by
    induction names with
    | nil => rfl
    | cons n ns ih =>
      cases ns with
      | nil => simp [commaList]
      | cons m ns =>
        rw [List.map_cons] at ih
        rw [List.map_cons, List.map_cons, List.intersperse_cons_cons, List.flatten_cons,
          List.flatten_cons, ih]
        simp [commaList]
  unfold changedJson
  simp only [hq, hc, ho, hr]
  rw [hlist]
  rfl

/-- An identifier of the writer is a name of the reader, and has no quotation mark. -/
theorem identifier_listed {n : Bytes} (h : identifier n = true) :
    n ≠ [] ∧ n.length ≤ 128 ∧ n.all listedByte = true ∧ 34 ∉ n := by
  unfold identifier at h
  simp only [Bool.and_eq_true, Bool.not_eq_true', List.isEmpty_eq_false_iff, decide_eq_true_eq] at h
  obtain ⟨⟨hne, hlen⟩, hall⟩ := h
  have hb : ∀ c ∈ n, listedByte c = true := by
    intro c hc
    have h := List.all_eq_true.mp hall c hc
    unfold listedByte
    simp only [Bool.or_eq_true] at h ⊢
    tauto
  refine ⟨hne, hlen, List.all_eq_true.mpr hb, ?_⟩
  intro hq
  have hbad := hb 34 hq
  simp [listedByte, isLower, isUpper, isDigit] at hbad

theorem takeWhile_quote {n rest : Bytes} (hq : 34 ∉ n) :
    (n ++ 34 :: rest).takeWhile (· != 34) = n := by
  rw [List.takeWhile_append_of_pos]
  · simp
  · intro c hc
    have hne : c ≠ 34 := fun h => hq (h ▸ hc)
    simpa using hne

/-- One round of the loop. -/
theorem changedLoop_name {n : Bytes} (rest : Bytes) (result : List Bytes) (hn : identifier n = true)
    (hlen : result.length < 64) :
    changedLoop (34 :: n ++ 34 :: rest) result =
      if rest.isEmpty then result ++ [n]
      else if !(ascii ",\"").isPrefixOf rest then []
      else changedLoop (rest.drop 1) (result ++ [n]) := by
  obtain ⟨hne, hshort, hall, hq⟩ := identifier_listed hn
  have hfound : (n.length == (n ++ 34 :: rest).length) = false := by simp
  have hdrop : (n ++ 34 :: rest).drop (n.length + 1) = rest := by
    rw [List.drop_append]
    simp
  have hempty : n.isEmpty = false := by simpa using hne
  rw [List.cons_append, changedLoop]
  simp only [takeWhile_quote hq, hfound, hempty, hall, hdrop]
  have h₁ : ¬ 128 < n.length := by omega
  have h₂ : ¬ 64 < result.length + 1 := by omega
  simp [h₁, h₂]

theorem commaList_quote (m : Bytes) (ns : List Bytes) : ∃ t, commaList (m :: ns) = 34 :: t := by
  cases ns with
  | nil => exact ⟨_, rfl⟩
  | cons k ns => exact ⟨_, rfl⟩

/-- And the text ends with one. -/
theorem commaList_last (n : Bytes) (ns : List Bytes) : ∃ t, commaList (n :: ns) = t ++ [34] := by
  induction ns generalizing n with
  | nil => exact ⟨34 :: n, rfl⟩
  | cons m ns ih =>
    obtain ⟨t, ht⟩ := ih m
    refine ⟨34 :: n ++ [34] ++ 44 :: t, ?_⟩
    rw [commaList, ht]
    simp

theorem changedLoop_names (names result : List Bytes) (hne : names ≠ [])
    (hn : ∀ n ∈ names, identifier n = true) (hlen : result.length + names.length ≤ 64) :
    changedLoop (commaList names) result = result ++ names := by
  induction names generalizing result with
  | nil => exact absurd rfl hne
  | cons n ns ih =>
    rw [List.length_cons] at hlen
    have hhead := hn n (List.mem_cons_self ..)
    cases ns with
    | nil =>
      have h := changedLoop_name [] result hhead (by omega)
      simpa [commaList] using h
    | cons m ns =>
      obtain ⟨t, ht⟩ := commaList_quote m ns
      have hcomma : (ascii ",\"").isPrefixOf (44 :: commaList (m :: ns)) = true := by
        have hq : ascii ",\"" = [44, 34] := by decide
        rw [hq, ht]
        rfl
      have h := changedLoop_name (44 :: commaList (m :: ns)) result hhead (by omega)
      have hshape : commaList (n :: m :: ns) = 34 :: n ++ 34 :: 44 :: commaList (m :: ns) := by
        simp [commaList]
      rw [hshape, h, hcomma]
      have ih := ih (result ++ [n]) (by simp) (fun x hx => hn x (List.mem_cons_of_mem _ hx)) (by
        rw [List.length_append]
        simp only [List.length_cons, List.length_nil] at hlen ⊢
        omega)
      simpa using ih

theorem commaList_length (names : List Bytes) (hn : ∀ n ∈ names, identifier n = true) :
    (commaList names).length ≤ 131 * names.length := by
  induction names with
  | nil => simp [commaList]
  | cons n ns ih =>
    have ih := ih fun x hx => hn x (List.mem_cons_of_mem _ hx)
    have hshort := (identifier_listed (hn n (List.mem_cons_self ..))).2.1
    cases ns with
    | nil =>
      simp only [commaList, List.length_cons, List.length_append, List.length_nil]
      omega
    | cons m ns =>
      simp only [commaList, List.length_cons, List.length_append, List.length_nil] at ih ⊢
      omega

/-- The reader takes the list as the writer laid it out. -/
theorem changedFields_written (names : List Bytes) (hn : ∀ n ∈ names, identifier n = true)
    (hlen : names.length ≤ 64) : changedFields (changedJson names) = names := by
  cases names with
  | nil => decide
  | cons n ns =>
    have hlong := commaList_length (n :: ns) hn
    have hloop := changedLoop_names (n :: ns) [] (by simp) hn (by simpa using hlen)
    obtain ⟨t, ht⟩ := commaList_quote n ns
    obtain ⟨u, hu⟩ := commaList_last n ns
    have hopen : ascii "[\"" = [91, 34] := by decide
    have hclose : ascii "\"]" = [34, 93] := by decide
    have hnil : ascii "[]" = [91, 93] := by decide
    have h₁ : (changedJson (n :: ns) == ascii "[]") = false := by
      rw [changedJson_eq, ht, hnil]
      simp
    have h₂ : ¬ 64 * 132 < (changedJson (n :: ns)).length := by
      rw [changedJson_eq]
      simp only [List.length_cons, List.length_append, List.length_nil] at hlong hlen ⊢
      omega
    have h₃ : (ascii "[\"").isPrefixOf (changedJson (n :: ns)) = true := by
      rw [changedJson_eq, ht, hopen]
      rfl
    have h₄ : (ascii "\"]").isSuffixOf (changedJson (n :: ns)) = true := by
      rw [changedJson_eq, hu, hclose, List.isSuffixOf_iff_suffix]
      exact ⟨91 :: u, by simp⟩
    have hinner : ((changedJson (n :: ns)).drop 1).dropLast = commaList (n :: ns) := by
      rw [changedJson_eq]
      simp
    unfold changedFields
    rw [h₁, h₃, h₄, hinner, hloop]
    simp only [h₂]
    simp

/-! ### Records -/

/-- The names that every public record has. -/
def coreNames : List Bytes :=
  [ascii "MESSAGE", ascii "PRIORITY", ascii "MNC_COMPONENT", ascii "MNC_LOG_AUDIENCE"]

def eventNames : List Bytes :=
  [ascii "MNC_EVENT_CATEGORY", ascii "MNC_ACTOR", ascii "MNC_ACTION", ascii "MNC_OUTCOME",
    ascii "MNC_SUBJECT", ascii "MNC_CHANGED_FIELDS", ascii "MNC_REQUEST_ID"]

theorem eventFields_kept (e : UserEvent) :
    (eventFields e).filter (fun f => validFieldName f.1 && !(reserved f.1 && Audience.user == .developer)) =
      eventFields e := by
  have hnames : (eventFields e).map Prod.fst = eventNames := rfl
  have hall : ∀ n ∈ eventNames,
      (validFieldName n && !(reserved n && Audience.user == .developer)) = true := by decide
  rw [List.filter_eq_self]
  intro f hf
  exact hall f.1 (hnames ▸ List.mem_map_of_mem hf)

variable {L : LogBase} {p : Priority} {e : UserEvent}

theorem emit_eq (L : LogBase) (p : Priority) (e : UserEvent) (hcode : e.code ≠ []) :
    L.emit .user p e.message e.code (eventFields e) none =
      [(ascii "MESSAGE", e.message), (ascii "PRIORITY", decimal p.value),
        (ascii "MNC_COMPONENT", L.component), (ascii "MNC_LOG_AUDIENCE", ascii "user")] ++
      (if L.module.isEmpty then [] else [(ascii "MNC_MODULE", L.module)]) ++
      [(ascii "MNC_EVENT", e.code)] ++ eventFields e := by
  have hevent : e.code.isEmpty = false := by simpa using hcode
  unfold LogBase.emit
  rw [eventFields_kept, hevent]
  simp

/-- The names of the record, with or without a module. -/
theorem emit_names (hcode : e.code ≠ []) :
    (L.emit .user p e.message e.code (eventFields e) none).map Prod.fst =
      coreNames ++ (if L.module.isEmpty then [] else [ascii "MNC_MODULE"]) ++ [ascii "MNC_EVENT"] ++
        eventNames := by
  rw [emit_eq L p e hcode]
  cases L.module.isEmpty with
  | true => rfl
  | false => rfl

theorem names_sound (module : Bool) :
    let names := coreNames ++ (if module then [] else [ascii "MNC_MODULE"]) ++ [ascii "MNC_EVENT"] ++
      eventNames
    names.Nodup ∧ (∀ n ∈ names, 61 ∉ n) ∧ (module = true → ascii "MNC_MODULE" ∉ names) := by
  cases module with
  | true => decide
  | false => decide

theorem readPriority_written (p : Priority) : readPriority (decimal p.value) = p := by
  cases p <;> rfl

theorem mem_between {α : Type} {a b c : List α} (m : List α) {x : α} (h : x ∈ a ++ b ++ c) :
    x ∈ a ++ m ++ b ++ c := by
  simp only [List.mem_append] at h ⊢
  tauto

/-- Public records survive the journal: the record of a valid event names no field twice, and
the entry read from it has the audience, the priority, the component, the module and everything
that the event said. -/
theorem audit_record_round_trip (L : LogBase) (p : Priority) (e : UserEvent) (J : Stamp)
    (hv : validUserEvent e = true) :
    ∃ fields, L.writeUser p e = some fields ∧ (fields.map Prod.fst).Nodup ∧
      let r := currentEntry J (J.store fields)
      r.audience = ascii "user" ∧ r.priority = p ∧ r.component = L.component ∧
        r.module = L.module ∧ r.event = e.code ∧ r.category = e.category ∧ r.message = e.message ∧
        r.actor = e.actor ∧ r.action = e.action ∧ r.outcome = e.outcome ∧ r.subject = e.subject ∧
        r.changedFields = e.changedFields ∧ r.requestId = e.requestId := by
  have hcode : e.code ≠ [] := by
    unfold validUserEvent identifier at hv
    intro hempty
    simp [hempty] at hv
  have hchanged : e.changedFields.length ≤ 64 ∧ ∀ n ∈ e.changedFields, identifier n = true := by
    unfold validUserEvent at hv
    simp only [Bool.and_eq_true, decide_eq_true_eq, List.all_eq_true] at hv
    exact ⟨hv.1.2, hv.2⟩
  let fields := L.emit .user p e.message e.code (eventFields e) none
  obtain ⟨hnodup, hsep, hmodule⟩ := names_sound L.module.isEmpty
  rw [← emit_names (L := L) (p := p) hcode] at hnodup hsep hmodule
  have hnames : ∀ f ∈ fields, 61 ∉ f.1 := fun f hf => hsep f.1 (List.mem_map_of_mem hf)
  -- Every field of the record is found under its name.
  have hfield : ∀ name value, (name, value) ∈ fields → field (J.store fields) name = value :=
    fun name value hm => field_stored hnames hnodup hm
  have hmem : ∀ f, f ∈ [(ascii "MESSAGE", e.message), (ascii "PRIORITY", decimal p.value),
      (ascii "MNC_COMPONENT", L.component), (ascii "MNC_LOG_AUDIENCE", ascii "user")] ++
      [(ascii "MNC_EVENT", e.code)] ++ eventFields e → f ∈ fields := by
    intro f hf
    change f ∈ L.emit .user p e.message e.code (eventFields e) none
    rw [emit_eq L p e hcode]
    exact mem_between _ hf
  have hmod : field (J.store fields) (ascii "MNC_MODULE") = L.module := by
    by_cases hempty : L.module.isEmpty = true
    · have hnil : L.module = [] := by simpa using hempty
      rw [hnil]
      refine field_absent ?_ (by decide) ⟨77, _, rfl, by decide⟩
      intro f hf
      refine ⟨hnames f hf, ?_⟩
      intro hname
      exact hmodule hempty (hname ▸ List.mem_map_of_mem hf)
    · apply hfield
      change _ ∈ L.emit .user p e.message e.code (eventFields e) none
      rw [emit_eq L p e hcode]
      simp [hempty]
  have hevent : ∀ f ∈ eventFields e, field (J.store fields) f.1 = f.2 :=
    fun f hf => hfield f.1 f.2 (hmem f (List.mem_append_right _ hf))
  have haudience : field (J.store fields) (ascii "MNC_LOG_AUDIENCE") = ascii "user" :=
    hfield _ _ (hmem _ (by simp))
  have hpriority : field (J.store fields) (ascii "PRIORITY") = decimal p.value :=
    hfield _ _ (hmem _ (by simp))
  have hlist : field (J.store fields) (ascii "MNC_CHANGED_FIELDS") = changedJson e.changedFields :=
    hevent (ascii "MNC_CHANGED_FIELDS", changedJson e.changedFields) (by simp [eventFields])
  have huser : (ascii "user").isEmpty = false := by decide
  refine ⟨fields, by rw [LogBase.writeUser, if_pos hv], hnodup, ?_⟩
  unfold currentEntry
  dsimp only
  rw [haudience, hpriority, hlist, hmod, readPriority_written, huser]
  refine ⟨rfl, rfl, hfield _ _ (hmem _ (by simp)), rfl, hfield _ _ (hmem _ (by simp)),
    hevent (ascii "MNC_EVENT_CATEGORY", e.category) (by simp [eventFields]),
    hfield _ _ (hmem _ (by simp)),
    hevent (ascii "MNC_ACTOR", e.actor) (by simp [eventFields]),
    hevent (ascii "MNC_ACTION", e.action) (by simp [eventFields]),
    hevent (ascii "MNC_OUTCOME", e.outcome) (by simp [eventFields]),
    hevent (ascii "MNC_SUBJECT", e.subject) (by simp [eventFields]),
    changedFields_written _ hchanged.2 hchanged.1,
    hevent (ascii "MNC_REQUEST_ID", e.requestId) (by simp [eventFields])⟩

/-- The event and the log of logging_test.cpp. -/
def savedEvent : UserEvent where
  code := ascii "settings_saved"
  category := ascii "settings"
  message := ascii "Settings saved"
  actor := ascii "uid:1000"
  action := ascii "save"
  outcome := ascii "completed"
  subject := ascii "settings"
  changedFields := [ascii "password", ascii "network.address"]
  requestId := ascii "r1"

def testLog : LogBase := ⟨ascii "test", ascii "module", by decide⟩

def testStamp : Stamp := ⟨10, ascii "s=1", [(ascii "_PID", ascii "1")], by decide⟩

theorem audit_record_round_trip_saved :
    validUserEvent savedEvent = true ∧ ∃ fields, testLog.writeUser .info savedEvent = some fields ∧
      (currentEntry testStamp (testStamp.store fields)).changedFields =
        [ascii "password", ascii "network.address"] := by
  have hv : validUserEvent savedEvent = true := by decide
  obtain ⟨fields, hw, -, -, -, -, -, -, -, -, -, -, -, -, hlist, -⟩ :=
    audit_record_round_trip testLog .info savedEvent testStamp hv
  exact ⟨hv, fields, hw, hlist⟩

end Monutchee.Logging
