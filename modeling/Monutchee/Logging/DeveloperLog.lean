import Monutchee.Logging.RoundTrip

/-!
# Developer entries (logging.cpp:75-94, 148-181)

The fields that a caller of `DeveloperLog::write` adds pass two filters, one for the form of a
name and one for the reserved names, so that no entry of a developer replaces a core field or
carries the metadata of the public stream. `MNC_REQUEST_ID` is not reserved: the guide counts it
among the correlation fields of any entry.
-/

namespace Monutchee.Logging
open Monutchee.System (Bytes ascii decimal)
open Monutchee.System.Validation

/-- `DeveloperLog::write` (`logging.cpp:176-181`). -/
def LogBase.writeDeveloper (L : LogBase) (priority : Priority) (message event : Bytes)
    (fields : List Field) (source : SourceLocation) : List Field :=
  L.emit .developer priority message event fields (some source)

/-- The names of the fields that the log itself writes. -/
def developerNames : List Bytes :=
  [ascii "MESSAGE", ascii "PRIORITY", ascii "MNC_COMPONENT", ascii "MNC_LOG_AUDIENCE",
    ascii "MNC_MODULE", ascii "MNC_EVENT", ascii "CODE_FILE", ascii "CODE_LINE", ascii "CODE_FUNC"]

/-- The core fields, and the metadata of the public stream. -/
def reservedNames : List Bytes :=
  [ascii "MESSAGE", ascii "PRIORITY", ascii "MNC_COMPONENT", ascii "MNC_MODULE", ascii "MNC_EVENT",
    ascii "MNC_LOG_AUDIENCE", ascii "MNC_EVENT_CATEGORY", ascii "MNC_ACTOR", ascii "MNC_ACTION",
    ascii "MNC_OUTCOME", ascii "MNC_SUBJECT", ascii "MNC_CHANGED_FIELDS"]

theorem reserved_iff {name : Bytes} :
    reserved name = true ↔ name ∈ reservedNames ∨ ∃ rest, name = ascii "CODE_" ++ rest := by
  unfold reserved reservedNames
  rw [Bool.or_eq_true, List.contains_iff_mem, List.isPrefixOf_iff_prefix]
  constructor
  · rintro (hmem | ⟨rest, hrest⟩)
    · exact .inl hmem
    · exact .inr ⟨rest, hrest.symm⟩
  · rintro (hmem | ⟨rest, hrest⟩)
    · exact .inl hmem
    · exact .inr ⟨rest, hrest.symm⟩

/-- A name that journald takes from a service, as the guide describes it. -/
structure FieldName (name : Bytes) : Prop where
  nonempty : name ≠ []
  first : name.head? ≠ some 95
  bytes : ∀ c ∈ name, isUpper c = true ∨ isDigit c = true ∨ c = 95

theorem validFieldName_iff {name : Bytes} : validFieldName name = true ↔ FieldName name := by
  unfold validFieldName
  simp only [Bool.and_eq_true, Bool.not_eq_true', List.isEmpty_eq_false_iff, bne_iff_ne,
    List.all_eq_true, Bool.or_eq_true, beq_iff_eq, or_assoc]
  constructor
  · rintro ⟨⟨hne, hfirst⟩, hall⟩
    exact ⟨hne, hfirst, hall⟩
  · intro h
    exact ⟨⟨h.nonempty, h.first⟩, h.bytes⟩

theorem FieldName.noSeparator {name : Bytes} (h : FieldName name) : 61 ∉ name := by
  intro hm
  rcases h.bytes 61 hm with hu | hd | he
  · revert hu
    decide
  · revert hd
    decide
  · revert he
    decide

theorem developerNames_spec : developerNames.Nodup ∧
    ∀ name ∈ developerNames, reserved name = true ∧ validFieldName name = true := by
  decide

theorem developerNames_nodup : developerNames.Nodup := developerNames_spec.1

theorem developerNames_reserved : ∀ name ∈ developerNames, reserved name = true ∧ validFieldName name = true :=
  developerNames_spec.2

theorem developerNames_noSeparator {name : Bytes} (h : name ∈ developerNames) : 61 ∉ name :=
  (validFieldName_iff.mp (developerNames_reserved name h).2).noSeparator

variable {L : LogBase} {priority : Priority} {message event : Bytes} {fields : List Field}
  {source : SourceLocation}

/-- The entry of a caller without fields of its own. -/
def LogBase.core (L : LogBase) (priority : Priority) (message event : Bytes) (source : SourceLocation) :
    List Field :=
  L.writeDeveloper priority message event [] source

/-- What passes both filters. -/
def callerFields (fields : List Field) : List Field :=
  fields.filter fun f => validFieldName f.1 && !reserved f.1

theorem writeDeveloper_eq : L.writeDeveloper priority message event fields source =
    L.core priority message event source ++ callerFields fields := by
  unfold LogBase.core LogBase.writeDeveloper LogBase.emit callerFields
  simp

theorem core_names : ((L.core priority message event source).map Prod.fst).Sublist developerNames := by
  have hmodule : ((if L.module.isEmpty then [] else [(ascii "MNC_MODULE", L.module)]).map Prod.fst).Sublist
      [ascii "MNC_MODULE"] := by
    split
    · exact List.nil_sublist _
    · exact List.Sublist.refl _
  have hevent : ((if event.isEmpty then [] else [(ascii "MNC_EVENT", event)]).map Prod.fst).Sublist
      [ascii "MNC_EVENT"] := by
    split
    · exact List.nil_sublist _
    · exact List.Sublist.refl _
  have hcore : developerNames = [ascii "MESSAGE", ascii "PRIORITY", ascii "MNC_COMPONENT",
      ascii "MNC_LOG_AUDIENCE"] ++ ([ascii "MNC_MODULE"] ++ ([ascii "MNC_EVENT"] ++
        [ascii "CODE_FILE", ascii "CODE_LINE", ascii "CODE_FUNC"])) := rfl
  unfold LogBase.core LogBase.writeDeveloper LogBase.emit
  simp only [List.filter_nil, List.append_nil, List.map_append, List.append_assoc, hcore]
  exact (List.Sublist.refl _).append (hmodule.append (hevent.append (List.Sublist.refl _)))

theorem core_name {f : Field} (hf : f ∈ L.core priority message event source) : f.1 ∈ developerNames :=
  core_names.subset (List.mem_map_of_mem hf)

/-- The caller adds nothing under a reserved name. -/
theorem reserved_eq {name : Bytes} (h : reserved name = true) :
    (L.writeDeveloper priority message event fields source).filter (·.1 == name) =
      (L.core priority message event source).filter (·.1 == name) := by
  have hnone : (callerFields fields).filter (·.1 == name) = [] := by
    rw [List.filter_eq_nil_iff]
    intro f hf hname
    have hpass := (List.mem_filter.mp hf).2
    rw [beq_iff_eq.mp hname, h] at hpass
    simp at hpass
  rw [writeDeveloper_eq, List.filter_append, hnone, List.append_nil]

theorem core_once (name : Bytes) :
    ((L.core priority message event source).filter (·.1 == name)).length ≤ 1 := by
  have hnodup : ((L.core priority message event source).map Prod.fst).Nodup := developerNames_nodup.sublist core_names
  have hcount := List.nodup_iff_count_le_one.mp hnodup name
  rw [List.count, List.countP_map] at hcount
  rw [← List.countP_eq_length_filter]
  exact hcount

/-- The part of the core before the fields that may be missing. -/
theorem core_eq : ∃ rest, L.core priority message event source =
    [(ascii "MESSAGE", message), (ascii "PRIORITY", decimal priority.value),
      (ascii "MNC_COMPONENT", L.component)] ++ (ascii "MNC_LOG_AUDIENCE", ascii "developer") :: rest := by
  unfold LogBase.core LogBase.writeDeveloper LogBase.emit
  simp

theorem core_audience : (L.core priority message event source).filter (·.1 == ascii "MNC_LOG_AUDIENCE") =
    [(ascii "MNC_LOG_AUDIENCE", ascii "developer")] := by
  have honce := @core_once L priority message event source (ascii "MNC_LOG_AUDIENCE")
  have hm : (ascii "MNC_LOG_AUDIENCE", ascii "developer") ∈
      (L.core priority message event source).filter (·.1 == ascii "MNC_LOG_AUDIENCE") := by
    obtain ⟨rest, hrest⟩ := @core_eq L priority message event source
    rw [hrest]
    simp
  generalize (L.core priority message event source).filter (·.1 == ascii "MNC_LOG_AUDIENCE") = l at honce hm
  match l, honce, hm with
  | [f], _, hm => rw [List.mem_singleton.mp hm]

/-- What is left of the entry after the reserved names. -/
theorem others_kept : (L.writeDeveloper priority message event fields source).filter (fun f => !reserved f.1) =
    fields.filter fun f => validFieldName f.1 && !reserved f.1 := by
  have hcore : (L.core priority message event source).filter (fun f => !reserved f.1) = [] := by
    rw [List.filter_eq_nil_iff]
    intro f hf
    simp [(developerNames_reserved f.1 (core_name hf)).1]
  rw [writeDeveloper_eq, List.filter_append, hcore, List.nil_append, callerFields, List.filter_filter]
  congr 1
  funext f
  cases reserved f.1 with
  | true => simp
  | false => simp

theorem developer_names {f : Field} (hf : f ∈ L.writeDeveloper priority message event fields source) :
    FieldName f.1 := by
  rw [← validFieldName_iff]
  rw [writeDeveloper_eq] at hf
  rcases List.mem_append.mp hf with hcore | hadded
  · exact (developerNames_reserved f.1 (core_name hcore)).2
  · have hpass := (List.mem_filter.mp hadded).2
    rw [Bool.and_eq_true] at hpass
    exact hpass.1

/-- The reader takes the audience that the log wrote. -/
theorem developer_audience (J : Stamp) :
    (currentEntry J (J.store (L.writeDeveloper priority message event fields source))).audience =
      ascii "developer" := by
  obtain ⟨rest, hrest⟩ := @core_eq L priority message event source
  have hfield : field (J.store (L.writeDeveloper priority message event fields source))
      (ascii "MNC_LOG_AUDIENCE") = ascii "developer" := by
    rw [writeDeveloper_eq, hrest, List.append_assoc]
    have hbefore : ∀ name ∈ [ascii "MESSAGE", ascii "PRIORITY", ascii "MNC_COMPONENT"],
        61 ∉ name ∧ name ≠ ascii "MNC_LOG_AUDIENCE" := by
      intro name hname
      have hapart := (List.nodup_append.mp (show ([ascii "MESSAGE", ascii "PRIORITY", ascii "MNC_COMPONENT"] ++
        _).Nodup from developerNames_nodup)).2.2 name hname
      exact ⟨developerNames_noSeparator (List.mem_append_left _ hname), hapart _ (List.mem_cons_self ..)⟩
    apply @field_first J _ _ [(ascii "MESSAGE", message), (ascii "PRIORITY", decimal priority.value),
      (ascii "MNC_COMPONENT", L.component)] (rest ++ callerFields fields)
    · intro f hf
      apply hbefore
      exact List.mem_map_of_mem (f := Prod.fst) hf
    · exact developerNames_noSeparator (by simp [developerNames])
  unfold currentEntry
  simp only [hfield]
  decide

/-- A developer entry has one value for each reserved name, whatever the caller's fields, keeps
the caller's other fields in their order, and is not read in the public stream. -/
theorem developer_entries_apart (L : LogBase) (priority : Priority) (message event : Bytes)
    (fields : List Field) (source : SourceLocation) :
    (∀ name, (name ∈ reservedNames ∨ ∃ rest, name = ascii "CODE_" ++ rest) →
      ((L.writeDeveloper priority message event fields source).filter (·.1 == name)).length ≤ 1 ∧
      ∀ others, (L.writeDeveloper priority message event others source).filter (·.1 == name) =
        (L.writeDeveloper priority message event fields source).filter (·.1 == name)) ∧
    (∀ f ∈ L.writeDeveloper priority message event fields source, FieldName f.1) ∧
    (L.writeDeveloper priority message event fields source).filter (·.1 == ascii "MNC_LOG_AUDIENCE") =
      [(ascii "MNC_LOG_AUDIENCE", ascii "developer")] ∧
    (L.writeDeveloper priority message event fields source).filter (fun f => !reserved f.1) =
      (fields.filter fun f => validFieldName f.1 && !reserved f.1) ∧
    ∀ (J : Stamp) (q : Query), q.audience = some (ascii "user") →
      matchesQuery q
        (currentEntry J (J.store (L.writeDeveloper priority message event fields source))).toEntry = false := by
  refine ⟨?_, fun f hf => developer_names hf, ?_, others_kept, ?_⟩
  · intro name hname
    have hname := reserved_iff.mpr hname
    rw [reserved_eq hname]
    refine ⟨core_once name, ?_⟩
    intro others
    rw [reserved_eq hname]
  · have hname := (developerNames_reserved (ascii "MNC_LOG_AUDIENCE") (by simp [developerNames])).1
    rw [reserved_eq hname, core_audience]
  · intro J q hq
    have haudience : same q.audience
        (currentEntry J (J.store (L.writeDeveloper priority message event fields source))).audience = false := by
      rw [hq, developer_audience]
      decide
    unfold matchesQuery
    rw [haudience]
    simp only [Bool.false_and]

/-- The caller of the test, who asks for the public audience, another event and a message. -/
def spoof : List Field :=
  [(ascii "MNC_LOG_AUDIENCE", ascii "user"), (ascii "MNC_EVENT", ascii "spoof"),
    (ascii "MESSAGE", ascii "secret"), (ascii "CODE_FILE", ascii "fake"), (ascii "MNC_ACTOR", ascii "admin")]

theorem developer_entries_apart_spoof :
    let L : LogBase := ⟨ascii "test", ascii "module", by decide⟩
    let r := L.writeDeveloper .debug (ascii "real") (ascii "developer_event") spoof ⟨ascii "logging_test.cpp", 28, ascii "main"⟩
    r.filter (·.1 == ascii "MNC_ACTOR") = [] ∧ (r.filter (·.1 == ascii "MESSAGE")).length ≤ 1 ∧
      matchesQuery { audience := some (ascii "user") }
        (currentEntry ⟨7, ascii "s=1", [], by simp⟩ ((⟨7, ascii "s=1", [], by simp⟩ : Stamp).store r)).toEntry = false := by
  intro L r
  have h := developer_entries_apart L .debug (ascii "real") (ascii "developer_event") spoof
    ⟨ascii "logging_test.cpp", 28, ascii "main"⟩
  exact ⟨by decide, (h.1 (ascii "MESSAGE") (.inl (List.mem_cons_self ..))).1, h.2.2.2.2 _ _ rfl⟩

end Monutchee.Logging
