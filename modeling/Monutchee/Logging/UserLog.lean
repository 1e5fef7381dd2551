import Monutchee.System.Validation

/-!
# The public log (logging.cpp:84-108, 147-206)

What `UserLog::write` accepts and the record that it hands to its sink. An event that is not
valid is dropped without a trace, so a caller has to keep the limits of this module.
-/

namespace Monutchee.Logging
open Monutchee.System Monutchee.System.Validation

/-! ### Validation -/

/-- safe_text (logging.cpp:95-100). -/
def safeText (value : Bytes) (maximum : ℕ) : Bool :=
  value.length ≤ maximum && !value.any fun c => c < 0x20 || c == 0x7f

/-- identifier (logging.cpp:101-108). -/
def identifier (value : Bytes) : Bool :=
  !value.isEmpty && value.length ≤ 128 &&
    value.all fun c => isLower c || isUpper c || isDigit c || c == 95 || c == 45 || c == 46

def categories : List Bytes :=
  [ascii "network", ascii "mqtt", ascii "delivery", ascii "settings", ascii "authentication",
    ascii "administration", ascii "availability"]

/-- `valid_user_event` (`logging.cpp:184-195`). -/
def validUserEvent (e : UserEvent) : Bool :=
  identifier e.code && identifier e.action && identifier e.outcome && categories.contains e.category &&
    !e.message.isEmpty && safeText e.message 512 && safeText e.actor 256 &&
    safeText e.subject 256 && safeText e.requestId 128 && e.changedFields.length ≤ 64 &&
    e.changedFields.all identifier

/-! ### The record -/

abbrev Field := Bytes × Bytes

/-- The syslog numbers of the priorities in use. -/
def priorityNumber : System.Priority → Bytes
  | .error => ascii "3"
  | .warning => ascii "4"
  | .info => ascii "6"

/-- changed_json (logging.cpp:109-117). -/
def changedJson (names : List Bytes) : Bytes :=
  let quoted := names.map fun name => ascii "\"" ++ name ++ ascii "\""
  ascii "[" ++ (quoted.intersperse (ascii ",")).flatten ++ ascii "]"

def validFieldName (name : Bytes) : Bool :=
  !name.isEmpty && name.head? != some 95 && name.all fun c => isUpper c || isDigit c || c == 95

/-- The fields of UserLog::write (logging.cpp:200-204). -/
def eventFields (e : UserEvent) : List Field :=
  [(ascii "MNC_EVENT_CATEGORY", e.category), (ascii "MNC_ACTOR", e.actor),
    (ascii "MNC_ACTION", e.action), (ascii "MNC_OUTCOME", e.outcome),
    (ascii "MNC_SUBJECT", e.subject), (ascii "MNC_CHANGED_FIELDS", changedJson e.changedFields),
    (ascii "MNC_REQUEST_ID", e.requestId)]

/-- What `LogBase::emit` (`logging.cpp:147-172`) gives to the sink of a log with this component
and module. -/
def record (component module : Bytes) (e : UserEvent) : List Field :=
  [(ascii "MESSAGE", e.message), (ascii "PRIORITY", priorityNumber e.priority),
    (ascii "MNC_COMPONENT", component), (ascii "MNC_LOG_AUDIENCE", ascii "user")] ++
  (if module.isEmpty then [] else [(ascii "MNC_MODULE", module)]) ++
  (if e.code.isEmpty then [] else [(ascii "MNC_EVENT", e.code)]) ++
  (eventFields e).filter fun f => validFieldName f.1

/-- `UserLog::write` (`logging.cpp:196-206`): the record for the sink, or nothing. -/
def userLogWrite (component module : Bytes) (e : UserEvent) : Option (List Field) :=
  if validUserEvent e then some (record component module e) else none

/-- A text without control characters. -/
theorem safeText_of {value : Bytes} {maximum : ℕ} (hl : value.length ≤ maximum)
    (hc : ∀ c ∈ value, 32 ≤ c.toNat ∧ c.toNat ≠ 127) : safeText value maximum = true := by
  unfold safeText
  rw [Bool.and_eq_true, Bool.not_eq_true', List.any_eq_false]
  refine ⟨by simpa using hl, ?_⟩
  intro c hm h
  obtain ⟨hlow, hdel⟩ := hc c hm
  rw [Bool.or_eq_true, decide_eq_true_eq, beq_iff_eq, UInt8.lt_iff_toNat_lt] at h
  obtain h | h := h
  · have h32 : (0x20 : UInt8).toNat = 32 := rfl
    omega
  · rw [h] at hdel
    exact hdel rfl

/-- Valid texts stay valid under any safe subject and caller. -/
theorem validUserEvent_of {e : UserEvent}
    (ht : validUserEvent { e with actor := [], subject := [], requestId := [] } = true)
    (hactor : safeText e.actor 256 = true) (hsubject : safeText e.subject 256 = true)
    (hrequest : safeText e.requestId 128 = true) : validUserEvent e = true := by
  unfold validUserEvent at ht ⊢
  simp only [Bool.and_eq_true] at ht ⊢
  obtain ⟨⟨⟨⟨⟨ht, -⟩, -⟩, -⟩, hcount⟩, hfields⟩ := ht
  exact ⟨⟨⟨⟨⟨ht, hactor⟩, hsubject⟩, hrequest⟩, hcount⟩, hfields⟩

/-- When every event is valid none is dropped. -/
theorem write_all (component module : Bytes) {es : List UserEvent}
    (h : ∀ e ∈ es, validUserEvent e = true) :
    es.filterMap (userLogWrite component module) = es.map (record component module) := by
  induction es with
  | nil => rfl
  | cons e es ih =>
    have he : userLogWrite component module e = some (record component module e) := by
      rw [userLogWrite, if_pos (h e (List.mem_cons_self ..))]
    rw [List.filterMap_cons_some he, List.map_cons, ih fun x hx => h x (List.mem_cons_of_mem _ hx)]

end Monutchee.Logging
