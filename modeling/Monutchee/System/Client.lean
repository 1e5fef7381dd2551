import Monutchee.Lib.Exchange
import Monutchee.System.Errors

/-!
# The client (client.cpp, protocol.hpp)

A call of the client is one message on the system bus, with its own connection, and its result is
what the client makes of the reply. The daemon serves one request at a time, ticks in between, may
stop and may be started again. Glaze is given by what it writes and reads; the six queries, whose
values nothing else depends on, are left out, as is the time that a call may take.
-/

namespace Monutchee.System.Client
open Lib Lib.Act

/-! ### Messages (protocol.hpp:12-31) -/

structure Reply where
  code : ErrorCode := .none
  message : Bytes := []
  json : Bytes := []
  deriving DecidableEq, Repr

/-- The calls of the client that come to the Backend (client.cpp:80-104). -/
inductive Method where
  | apply (c : Configuration)
  | beginNetwork (p : NetworkProposal) (context : AuditContext)
  | networkTransaction
  | prepareNetworkCommit (id : Bytes)
  | finishNetwork (id : Bytes) (commit : Bool) (context : AuditContext)
  | power (action : PowerAction) (context : AuditContext)
  | resetDevice (confirmed : Bool) (context : AuditContext)
  deriving DecidableEq, Repr

def Method.member : Method → Bytes
  | .apply _ => ascii "ApplyPreferences"
  | .beginNetwork _ _ => ascii "BeginNetwork"
  | .networkTransaction => ascii "GetNetworkTransaction"
  | .prepareNetworkCommit _ => ascii "PrepareNetworkCommit"
  | .finishNetwork _ _ _ => ascii "FinishNetwork"
  | .power _ _ => ascii "Power"
  | .resetDevice _ _ => ascii "ResetDevice"

/-- glz::write_json and glz::read_json for these types, with the formatted error of a text that
cannot be read. -/
structure Json where
  writeMethod : Method → Option Bytes
  writeReply : Reply → Option Bytes
  readReply : Bytes → Except Bytes Reply
  writeTransaction : NetworkTransaction → Option Bytes
  readTransaction : Bytes → Except Bytes NetworkTransaction
  writeJob : Job → Option Bytes
  readJob : Bytes → Except Bytes Job
  writeQuery : Query → Option Bytes

def tooLarge : Error := ⟨.invalidArgument, ascii "message too large"⟩

/-- decode (protocol.hpp:32-40) with its limit. -/
def decodeWithin {α : Type} (limit : ℕ) (read : Bytes → Except Bytes α) (text : Bytes) : Except Error α :=
  if limit < text.length then .error tooLarge
  else
    match read text with
    | .error reason => .error ⟨.invalidArgument, ascii "invalid system request: " ++ reason⟩
    | .ok value => .ok value

/-- The limit of the client for a reply and for the value in it. -/
def replySize : ℕ := 512 * 1024

def cannotEncode : Error := ⟨.internalError, ascii "cannot encode system message"⟩

/-- encode (protocol.hpp:41-47) -/
def encode (written : Option Bytes) : Except Error Bytes :=
  match written with
  | none => .error cannotEncode
  | some text => .ok text

/-! ### The daemon's side (main.cpp:28-119) -/

def valueText (J : Json) : Answer → Option Bytes
  | .query q => J.writeQuery q
  | .reply .done => some []
  | .reply (.transaction t) => J.writeTransaction t
  | .reply (.job j) => J.writeJob j

/-- The end of the handler: the value is written, an operation with rights is logged, and an error on
the way is the reply. `unlogged` is what an exception of the logger says; `DeveloperLog::write` itself is noexcept, so
it stands for what making the entry or its text throws. -/
def finished (J : Json) (member : Bytes) (unlogged : Option Bytes) (a : Answer) : Reply :=
  match valueText J a with
  | none => { code := cannotEncode.code, message := cannotEncode.message }
  | some json =>
    if Access.settingsOperation member || Access.controlOperation member then
      match unlogged with
      | none => { json := json }
      | some what => { code := .internalError, message := what, json := json }
    else { json := json }

/-- The text that goes back; without one the bus tells the caller so. -/
def respond (J : Json) (member : Bytes) (unlogged : Option Bytes) : Outcome Error Answer → Option Bytes
  | .ret a => J.writeReply (finished J member unlogged a)
  | .raise e => J.writeReply { code := e.code, message := e.message }
  | .crash => none

/-- What the environment does while a request is served. -/
structure Meanwhile where
  script : List Choice
  unlogged : Option Bytes := none
  deriving DecidableEq, Repr

def server (D : Daemon) (J : Json) : Exchange.Server World Request Meanwhile Life Bytes where
  serve r x w :=
    (if w.alive then respond J r.member x.unlogged (D.request r x.script w).1 else none,
      D.live w (.input (.request r x.script)))
  idle l w := D.live w l

abbrev Bus := Exchange.State World Request Meanwhile Life Bytes

/-! ### The client's side (client.cpp:9-79) -/

/-- How `sd_bus_call_method` fails. -/
inductive Errno where
  | access | timedOut | other
  deriving DecidableEq, Repr

def callFailed (errno : Errno) (message : Option Bytes) : Error :=
  ⟨match errno with
    | .access => .permissionDenied
    | .timedOut => .timeout
    | .other => .unavailable,
    message.getD (ascii "system manager unavailable")⟩

/-- The value that a method returns; a void one does not read the reply's. -/
def Method.value (J : Json) (m : Method) (json : Bytes) : Except Error Backend.Reply :=
  match m with
  | .beginNetwork _ _ | .networkTransaction => (decodeWithin replySize J.readTransaction json).map .transaction
  | .power _ _ | .resetDevice _ _ => (decodeWithin replySize J.readJob json).map .job
  | .apply _ | .prepareNetworkCommit _ | .finishNetwork _ _ _ => .ok .done

/-- The result of a call whose reply has this text. -/
def Method.result (J : Json) (m : Method) (text : Bytes) : Except Error Backend.Reply := do
  let reply ← decodeWithin replySize J.readReply text
  if reply.code ≠ .none then .error ⟨reply.code, reply.message⟩
  else m.value J reply.json

/-- How a call over the bus ends for the client. -/
def Method.outcome (J : Json) (m : Method) (errno : Errno) (message : Option Bytes) : Option Bytes →
    Except Error Backend.Reply
  | some text => m.result J text
  | none => .error (callFailed errno message)

/-! ### What Glaze is relied on for -/

/-- The call of the Backend that a method stands for, with the identity that the daemon passes on. -/
def Method.op (D : Daemon) (uid : UInt32) : Method → Op
  | .apply c => .apply c
  | .beginNetwork p context =>
    .beginNetwork p (D.settingsContext uid context).actor (D.settingsContext uid context).requestId
  | .networkTransaction => .networkTransaction
  | .prepareNetworkCommit id => .prepareNetworkCommit id
  | .finishNetwork id commit context =>
    .finishNetwork id commit (D.settingsContext uid context).actor (D.settingsContext uid context).requestId
  | .power action context =>
    .power action (D.controlContext uid context).actor (D.controlContext uid context).requestId
  | .resetDevice confirmed context =>
    .resetDevice confirmed (D.controlContext uid context).actor (D.controlContext uid context).requestId

/-- The daemon reads from a text what the client wrote. -/
def Method.ReadBack (D : Daemon) (text : Bytes) : Method → Prop
  | .apply c => D.read.configuration text = .ok c
  | .beginNetwork p context => D.read.proposal text = .ok (p, context)
  | .networkTransaction => D.read.empty text = .ok ()
  | .prepareNetworkCommit id => D.read.id text = .ok id
  | .finishNetwork id commit context => D.read.finish text = .ok (id, commit, context)
  | .power action context => D.read.power text = .ok (action, context)
  | .resetDevice confirmed context => D.read.reset text = .ok (confirmed, context)

/-- What is written is read back. -/
structure RoundTrips (D : Daemon) (J : Json) : Prop where
  method : ∀ m text, J.writeMethod m = some text → m.ReadBack D text
  reply : ∀ r text, J.writeReply r = some text → J.readReply text = .ok r
  transaction : ∀ t text, J.writeTransaction t = some text → J.readTransaction text = .ok t
  job : ∀ j text, J.writeJob j = some text → J.readJob text = .ok j

variable {D : Daemon} {J : Json} {m : Method} {uid : UInt32} {text json : Bytes} {w w' : World}

theorem decode_map {α β : Type} {read : Bytes → Except Bytes α} {f : α → β} {v : α} {b : β} (hread : read text = .ok v)
    (h : (decode read text).map f = .ok b) : b = f v := by
  obtain ⟨a, ha, hb⟩ := map_ok h
  unfold decode at ha
  split at ha
  · cases ha
  · rw [hread] at ha
    cases ha
    exact hb.symm

/-- A request of the client that passes the checks comes to the call that it stands for. -/
theorem authorize_method {a : Action} (hread : m.ReadBack D json)
    (h : D.authorize ⟨.ok uid, m.member, some json⟩ = .ok a) : a = .call (m.op D uid) := by
  have hdispatch : D.dispatch uid m.member json = .ok a := by
    obtain ⟨uid', json', hpeer, -, hbody, hd⟩ := authorize_ok h
    cases hpeer
    cases hbody
    exact hd
  cases m with
  | apply c =>
    have hvalue : D.read.configuration json = .ok c := hread
    have htable : D.dispatch uid (Method.apply c).member json =
        (decode D.read.configuration json).map fun config => .call (.apply config) := rfl
    rw [htable] at hdispatch
    have hcall := decode_map hvalue hdispatch
    exact hcall
  | beginNetwork p context =>
    have hvalue : D.read.proposal json = .ok (p, context) := hread
    have htable : D.dispatch uid (Method.beginNetwork p context).member json =
        (decode D.read.proposal json).map fun x => .call (.beginNetwork x.1 (D.settingsContext uid x.2).actor
          (D.settingsContext uid x.2).requestId) := rfl
    rw [htable] at hdispatch
    have hcall := decode_map hvalue hdispatch
    exact hcall
  | networkTransaction =>
    have hvalue : D.read.empty json = .ok () := hread
    have htable : D.dispatch uid Method.networkTransaction.member json =
        (decode D.read.empty json).map fun _ => .call .networkTransaction := rfl
    rw [htable] at hdispatch
    have hcall := decode_map hvalue hdispatch
    exact hcall
  | prepareNetworkCommit id =>
    have hvalue : D.read.id json = .ok id := hread
    have htable : D.dispatch uid (Method.prepareNetworkCommit id).member json =
        (decode D.read.id json).map fun id => .call (.prepareNetworkCommit id) := rfl
    rw [htable] at hdispatch
    have hcall := decode_map hvalue hdispatch
    exact hcall
  | finishNetwork id commit context =>
    have hvalue : D.read.finish json = .ok (id, commit, context) := hread
    have htable : D.dispatch uid (Method.finishNetwork id commit context).member json =
        (decode D.read.finish json).map fun x => .call (.finishNetwork x.1 x.2.1 (D.settingsContext uid x.2.2).actor
          (D.settingsContext uid x.2.2).requestId) := rfl
    rw [htable] at hdispatch
    have hcall := decode_map hvalue hdispatch
    exact hcall
  | power action context =>
    have hvalue : D.read.power json = .ok (action, context) := hread
    have htable : D.dispatch uid (Method.power action context).member json =
        (decode D.read.power json).map fun x => .call (.power x.1 (D.controlContext uid x.2).actor
          (D.controlContext uid x.2).requestId) := rfl
    rw [htable] at hdispatch
    have hcall := decode_map hvalue hdispatch
    exact hcall
  | resetDevice confirmed context =>
    have hvalue : D.read.reset json = .ok (confirmed, context) := hread
    have htable : D.dispatch uid (Method.resetDevice confirmed context).member json =
        (decode D.read.reset json).map fun x => .call (.resetDevice x.1 (D.controlContext uid x.2).actor
          (D.controlContext uid x.2).requestId) := rfl
    rw [htable] at hdispatch
    have hcall := decode_map hvalue hdispatch
    exact hcall

/-! ### What the Backend returns -/

/-- The kind of value that a call of the Backend returns. -/
def Method.returns (m : Method) (r : Backend.Reply) : Prop :=
  match m with
  | .beginNetwork _ _ | .networkTransaction => ∃ t, r = .transaction t
  | .power _ _ | .resetDevice _ _ => ∃ j, r = .job j
  | .apply _ | .prepareNetworkCommit _ | .finishNetwork _ _ _ => r = .done

theorem call_returns {S : Site} {r : Backend.Reply} (h : Backend.call S (m.op D uid) w = (.ret r, w')) : m.returns r := by
  cases m with
  | apply c =>
    obtain ⟨_, w₁, -, hr⟩ := bind_ret h
    exact (Outcome.ret.inj (congrArg Prod.fst hr)).symm
  | beginNetwork p context =>
    obtain ⟨t, w₁, -, hr⟩ := bind_ret h
    exact ⟨t, (Outcome.ret.inj (congrArg Prod.fst hr)).symm⟩
  | networkTransaction =>
    obtain ⟨t, w₁, -, hr⟩ := bind_ret h
    exact ⟨t, (Outcome.ret.inj (congrArg Prod.fst hr)).symm⟩
  | prepareNetworkCommit id =>
    obtain ⟨_, w₁, -, hr⟩ := bind_ret h
    exact (Outcome.ret.inj (congrArg Prod.fst hr)).symm
  | finishNetwork id commit context =>
    obtain ⟨_, w₁, -, hr⟩ := bind_ret h
    exact (Outcome.ret.inj (congrArg Prod.fst hr)).symm
  | power action context =>
    obtain ⟨j, w₁, -, hr⟩ := bind_ret h
    exact ⟨j, (Outcome.ret.inj (congrArg Prod.fst hr)).symm⟩
  | resetDevice confirmed context =>
    obtain ⟨j, w₁, -, hr⟩ := bind_ret h
    exact ⟨j, (Outcome.ret.inj (congrArg Prod.fst hr)).symm⟩

theorem perform_returns {S : Site} {script : List Choice} {r : Backend.Reply}
    (h : perform S (m.op D uid) script w = (.ret r, w')) : m.returns r := by
  unfold perform at h
  rcases hg : guarded S (m.op D uid) (entered (m.op D uid) script w) with ⟨o, w₁⟩
  rw [hg] at h
  cases o with
  | ret r' =>
    simp only [Prod.mk.injEq, Outcome.ret.injEq] at h
    obtain ⟨r'', w₂, hcall, hrest⟩ := bind_ret hg
    obtain ⟨_, w₃, -, hpure⟩ := bind_ret hrest
    have hr : r'' = r' := Outcome.ret.inj (congrArg Prod.fst hpure)
    rw [← h.1, ← hr]
    exact call_returns hcall
  | raise e => simp at h
  | crash => simp at h

/-! ### One call -/

variable (D uid m json) in
/-- The request that the client sends. The daemon learns its uid; a request whose peer query fails is not among
these. -/
def Method.request : Request := ⟨.ok uid, m.member, some json⟩

/-- What a request comes to: an error before the Backend is reached, or a call of it. -/
theorem request_cases (hread : m.ReadBack D json) (script : List Choice) (w : World) :
    (∃ e, D.authorize (m.request uid json) = .error e ∧ (D.request (m.request uid json) script w).1 = .raise e) ∨
      (D.authorize (m.request uid json) = .ok (.call (m.op D uid)) ∧
        (D.request (m.request uid json) script w).1 = match (perform D.site (m.op D uid) script w).1 with
          | .ret r => .ret (.reply r)
          | .raise e => .raise e
          | .crash => .crash) := by
  cases ha : D.authorize (m.request uid json) with
  | error e =>
    refine .inl ⟨e, rfl, ?_⟩
    unfold Daemon.request
    rw [ha]
  | ok a =>
    have hcall := authorize_method hread ha
    rw [hcall] at ha
    refine .inr ⟨by rw [hcall], ?_⟩
    unfold Daemon.request
    simp only [ha]
    rcases perform D.site (m.op D uid) script w with ⟨o, w'⟩
    cases o with
    | ret r => rfl
    | raise e => rfl
    | crash => rfl

theorem decodeWithin_ok {α : Type} {limit : ℕ} {read : Bytes → Except Bytes α} {v a : α} (hread : read text = .ok v)
    (h : decodeWithin limit read text = .ok a) : a = v := by
  unfold decodeWithin at h
  split at h
  · cases h
  · rw [hread] at h
    cases h
    rfl

/-- The value that the client returns is the one that the daemon wrote. -/
theorem value_ok {r v : Backend.Reply} (hJ : RoundTrips D J) (hreturns : m.returns r)
    (hwritten : valueText J (.reply r) = some json) (h : m.value J json = .ok v) : v = r := by
  have htransaction : ∀ t, r = .transaction t → (decodeWithin replySize J.readTransaction json).map .transaction = .ok v →
      v = r := by
    intro t hr hv
    rw [hr] at hwritten ⊢
    obtain ⟨a, ha, rfl⟩ := map_ok hv
    rw [decodeWithin_ok (hJ.transaction t json hwritten) ha]
  have hjob : ∀ j, r = .job j → (decodeWithin replySize J.readJob json).map .job = .ok v → v = r := by
    intro j hr hv
    rw [hr] at hwritten ⊢
    obtain ⟨a, ha, rfl⟩ := map_ok hv
    rw [decodeWithin_ok (hJ.job j json hwritten) ha]
  have hdone : r = .done → (.ok .done : Except Error Backend.Reply) = .ok v → v = r := by
    intro hr hv
    cases hv
    exact hr.symm
  cases m with
  | apply c => exact hdone hreturns h
  | beginNetwork p context =>
    obtain ⟨t, ht⟩ := hreturns
    exact htransaction t ht h
  | networkTransaction =>
    obtain ⟨t, ht⟩ := hreturns
    exact htransaction t ht h
  | prepareNetworkCommit id => exact hdone hreturns h
  | finishNetwork id commit context => exact hdone hreturns h
  | power action context =>
    obtain ⟨j, hj⟩ := hreturns
    exact hjob j hj h
  | resetDevice confirmed context =>
    obtain ⟨j, hj⟩ := hreturns
    exact hjob j hj h

theorem decodeWithin_error {α : Type} {limit : ℕ} {read : Bytes → Except Bytes α} {v : α} {e : Error}
    (hread : read text = .ok v) (h : decodeWithin limit read text = .error e) :
    e = tooLarge := by
  unfold decodeWithin at h
  split at h
  · cases h
    rfl
  · rw [hread] at h
    cases h

theorem map_error {α β : Type} {x : Except Error α} {f : α → β} {e : Error} (h : x.map f = .error e) : x = .error e := by
  cases x with
  | ok a => cases h
  | error e' =>
    cases h
    rfl

/-- The value cannot fail to be read for another reason than its length. -/
theorem value_error {r : Backend.Reply} {e : Error} (hJ : RoundTrips D J) (hreturns : m.returns r)
    (hwritten : valueText J (.reply r) = some json) (h : m.value J json = .error e) :
    e = tooLarge := by
  have htransaction : ∀ t, r = .transaction t →
      (decodeWithin replySize J.readTransaction json).map Backend.Reply.transaction = .error e →
      e = tooLarge := by
    intro t hr he
    rw [hr] at hwritten
    exact decodeWithin_error (hJ.transaction t json hwritten) (map_error he)
  have hjob : ∀ j, r = .job j → (decodeWithin replySize J.readJob json).map Backend.Reply.job = .error e →
      e = tooLarge := by
    intro j hr he
    rw [hr] at hwritten
    exact decodeWithin_error (hJ.job j json hwritten) (map_error he)
  cases m with
  | apply c => cases h
  | beginNetwork p context =>
    obtain ⟨t, ht⟩ := hreturns
    exact htransaction t ht h
  | networkTransaction =>
    obtain ⟨t, ht⟩ := hreturns
    exact htransaction t ht h
  | prepareNetworkCommit id => cases h
  | finishNetwork id commit context => cases h
  | power action context =>
    obtain ⟨j, hj⟩ := hreturns
    exact hjob j hj h
  | resetDevice confirmed context =>
    obtain ⟨j, hj⟩ := hreturns
    exact hjob j hj h

/-- A result comes from a reply that could be read. -/
theorem result_reply {x : Except Error Backend.Reply} {reply : Reply} (hJ : RoundTrips D J)
    (hwritten : J.writeReply reply = some text) (h : m.result J text = x) :
    (replySize < text.length ∧ x = .error tooLarge) ∨
      x = if reply.code ≠ .none then .error ⟨reply.code, reply.message⟩ else m.value J reply.json := by
  unfold Method.result decodeWithin at h
  rw [hJ.reply reply text hwritten] at h
  by_cases hsize : replySize < text.length
  · rw [if_pos hsize] at h
    exact .inl ⟨hsize, h.symm⟩
  · rw [if_neg hsize] at h
    exact .inr h.symm

/-- The handler had an error after the Backend was done. -/
def AfterError (unlogged : Option Bytes) (e : Error) : Prop :=
  e = cannotEncode ∨ ∃ what, unlogged = some what ∧ e = ⟨.internalError, what⟩

/-- What the client makes of the handler's reply when the Backend was done. -/
theorem result_finished {r : Backend.Reply} {x : Except Error Backend.Reply} {unlogged : Option Bytes}
    (hJ : RoundTrips D J) (hreturns : m.returns r)
    (hwritten : J.writeReply (finished J m.member unlogged (.reply r)) = some text) (h : m.result J text = x) :
    x = .ok r ∨ ∃ e, x = .error e ∧ (e = tooLarge ∨ AfterError unlogged e) := by
  have hvalue : ∀ json, valueText J (.reply r) = some json → m.value J json = x →
      x = .ok r ∨ ∃ e, x = .error e ∧ (e = tooLarge ∨ AfterError unlogged e) := by
    intro json hjson hx
    cases x with
    | ok v => exact .inl (congrArg _ (value_ok hJ hreturns hjson hx))
    | error e => exact .inr ⟨e, rfl, .inl (value_error hJ hreturns hjson hx)⟩
  rcases result_reply hJ hwritten h with ⟨-, hlarge⟩ | hx
  · exact .inr ⟨tooLarge, hlarge, .inl rfl⟩
  · unfold finished at hx
    cases hjson : valueText J (.reply r) with
    | none =>
      rw [hjson] at hx
      exact .inr ⟨cannotEncode, hx, .inr (.inl rfl)⟩
    | some json =>
      rw [hjson] at hx
      by_cases hlogged : (Access.settingsOperation m.member || Access.controlOperation m.member) = true
      · simp only [hlogged, if_true] at hx
        cases hlog : unlogged with
        | none =>
          rw [hlog] at hx
          rw [← hlog]
          exact hvalue json hjson hx.symm
        | some what =>
          rw [hlog] at hx
          exact .inr ⟨⟨.internalError, what⟩, hx, .inr (.inr ⟨what, rfl, rfl⟩)⟩
      · simp only [hlogged] at hx
        exact hvalue json hjson hx.symm

/-- A request that was answered: the Backend did the call and the client got its value or an error of
the way back, or the request ended with an error, which the client got if it was not too large. -/
theorem answered_cases {x : Meanwhile} {v : Except Error Backend.Reply} (hJ : RoundTrips D J)
    (hread : m.ReadBack D json) (hscript : Scripted x.script)
    (hreply : ((server D J).serve (m.request uid json) x w).1 = some text) (h : m.result J text = v) :
    (∃ r w', perform D.site (m.op D uid) x.script w = (.ret r, w') ∧
        (v = .ok r ∨ ∃ e, v = .error e ∧ (e = tooLarge ∨ AfterError x.unlogged e))) ∨
      ∃ e, (D.request (m.request uid json) x.script w).1 = .raise e ∧ (v = .error e ∨ v = .error tooLarge) := by
  have hrespond : respond J m.member x.unlogged (D.request (m.request uid json) x.script w).1 = some text := by
    have hserve : (if w.alive then respond J m.member x.unlogged (D.request (m.request uid json) x.script w).1
      else none) = some text := hreply
    split at hserve
    · exact hserve
    · cases hserve
  have hraise : ∀ e, (D.request (m.request uid json) x.script w).1 = .raise e → v = .error e ∨ v = .error tooLarge := by
    intro e he
    have hcoded : e.Coded := request_coded (Checks.ok uid) hscript (Prod.ext he rfl)
    rw [he] at hrespond
    rcases result_reply hJ hrespond h with ⟨-, hlarge⟩ | hv
    · exact .inr hlarge
    · have hcode : e.code ≠ .none := hcoded
      exact .inl (hv.trans (if_pos hcode))
  rcases @request_cases D m uid json hread x.script w with ⟨e, -, he⟩ | ⟨-, hcall⟩
  · exact .inr ⟨e, he, hraise e he⟩
  · rcases hp : perform D.site (m.op D uid) x.script w with ⟨o, w'⟩
    rw [hp] at hcall
    cases o with
    | ret r =>
      simp only at hcall
      rw [hcall] at hrespond
      exact .inl ⟨r, w', rfl, result_finished hJ (perform_returns hp) hrespond h⟩
    | raise e => exact .inr ⟨e, hcall, hraise e hcall⟩
    | crash =>
      simp only at hcall
      rw [hcall] at hrespond
      cases hrespond

/-! ### All interleavings -/

abbrev History := List (Exchange.Event Request Meanwhile Life Bytes)

/-- What an event is for the daemon. -/
def life : Exchange.Event Request Meanwhile Life Bytes → Option Life
  | .served _ r x _ => some (.input (.request r x.script))
  | .idled l => some l
  | _ => none

/-- The daemon's own run. -/
def lifeOf (history : History) : List Life := history.filterMap life

theorem replay_eq (w : World) (history : History) :
    (server D J).replay w history = D.lives w (lifeOf history) := by
  induction history generalizing w with
  | nil => rfl
  | cons e history ih =>
    have hcons : (server D J).replay w (e :: history) = (server D J).replay ((server D J).move w e) history := rfl
    rw [hcons, ih]
    cases e with
    | sent k q => rfl
    | served k q x reply => rfl
    | idled l => rfl
    | closed k reply => rfl

/-- No error that the environment answers with has the code of success. -/
def Quiet (history : History) : Prop := ∀ k r x reply, .served k r x reply ∈ history → Scripted x.script

variable {s : Bus} {k : ℕ}

theorem answered_in_run {v : Except Error Backend.Reply} (hJ : RoundTrips D J)
    (h : Exchange.Reachable (server D J) w s) (hquiet : Quiet s.history) (hwritten : J.writeMethod m = some json)
    (hsent : .sent k (m.request uid json) ∈ s.history) (hclosed : .closed k (some text) ∈ s.history)
    (hresult : m.result J text = v) :
    ∃ a, Exchange.Answered s.history k (m.request uid json) text a ∧
      ((∃ r w', perform D.site (m.op D uid) a.x.script (D.lives w (lifeOf (a.past k (m.request uid json)))) = (.ret r, w') ∧
          (v = .ok r ∨ ∃ e, v = .error e ∧ (e = tooLarge ∨ AfterError a.x.unlogged e))) ∨
        ∃ e, (D.request (m.request uid json) a.x.script (D.lives w (lifeOf (a.past k (m.request uid json))))).1 = .raise e ∧
          (v = .error e ∨ v = .error tooLarge)) := by
  obtain ⟨a, ha, hreply⟩ := (Exchange.reachable_sound h).answered hsent hclosed
  refine ⟨a, ha, ?_⟩
  rw [replay_eq] at hreply
  have hserved : .served k (m.request uid json) a.x (some text) ∈ s.history := by
    rw [ha.split]
    simp
  exact answered_cases hJ (hJ.method m json hwritten) (hquiet k _ a.x _ hserved) hreply hresult

/-- A call of the client that succeeds was done by the Backend exactly once, between its two ends, and
its value is what the Backend returned there in the daemon's own run. -/
theorem success_was_done (hJ : RoundTrips D J) (h : Exchange.Reachable (server D J) w s) (hquiet : Quiet s.history)
    (hwritten : J.writeMethod m = some json) (hsent : .sent k (m.request uid json) ∈ s.history)
    (hclosed : .closed k (some text) ∈ s.history) {v : Backend.Reply} (hresult : m.result J text = .ok v) :
    s.server = D.lives w (lifeOf s.history) ∧
      ∃ a, Exchange.Answered s.history k (m.request uid json) text a ∧
        ∃ w', perform D.site (m.op D uid) a.x.script (D.lives w (lifeOf (a.past k (m.request uid json)))) = (.ret v, w') := by
  constructor
  · rw [(Exchange.reachable_sound h).replayed, replay_eq]
  · obtain ⟨a, ha, hcases⟩ := answered_in_run hJ h hquiet hwritten hsent hclosed hresult
    refine ⟨a, ha, ?_⟩
    rcases hcases with ⟨r, w', hdone, hv | ⟨e, hv, -⟩⟩ | ⟨e, -, hv | hv⟩
    · cases hv
      exact ⟨w', hdone⟩
    · cases hv
    · cases hv
    · cases hv

/-- An answered call that fails: the request ended with this error, the reply was too large, or the
call was done all the same and its value could not be written or its acceptance not be logged. -/
theorem failure_may_be_done (hJ : RoundTrips D J) (h : Exchange.Reachable (server D J) w s) (hquiet : Quiet s.history)
    (hwritten : J.writeMethod m = some json) (hsent : .sent k (m.request uid json) ∈ s.history)
    (hclosed : .closed k (some text) ∈ s.history) {e : Error} (hresult : m.result J text = .error e) :
    ∃ a, Exchange.Answered s.history k (m.request uid json) text a ∧
      ((D.request (m.request uid json) a.x.script (D.lives w (lifeOf (a.past k (m.request uid json))))).1 = .raise e ∨
        e = tooLarge ∨
        AfterError a.x.unlogged e ∧ ∃ r w',
          perform D.site (m.op D uid) a.x.script (D.lives w (lifeOf (a.past k (m.request uid json)))) = (.ret r, w')) := by
  obtain ⟨a, ha, hcases⟩ := answered_in_run hJ h hquiet hwritten hsent hclosed hresult
  refine ⟨a, ha, ?_⟩
  rcases hcases with ⟨r, w', hdone, hv | ⟨e', hv, hlarge | hafter⟩⟩ | ⟨e', hraised, hv | hv⟩
  · cases hv
  · cases hv
    exact .inr (.inl hlarge)
  · cases hv
    exact .inr (.inr ⟨hafter, r, w', hdone⟩)
  · cases hv
    exact .inl hraised
  · cases hv
    exact .inr (.inl rfl)

/-! ### A call that was done -/

namespace Sample

def context : AuditContext := { actor := ascii "web" }

def reboot : Method := .power .reboot context

def job : Job := ⟨Fixture.id, .reboot, .accepted⟩

def accepted : Reply := { json := ascii "job" }

def unlogged : Reply := { code := .internalError, message := ascii "no journal", json := ascii "job" }

def daemon : Daemon where
  site := Fixture.site
  read :=
    { empty := fun _ => .error [], configuration := fun _ => .error [], proposal := fun _ => .error []
      id := fun _ => .error [], finish := fun _ => .error [], power := fun _ => .ok (.reboot, context)
      reset := fun _ => .error [] }

def glaze : Json where
  writeMethod m := if m = reboot then some (ascii "request") else none
  writeReply r := if r = accepted then some (ascii "reply") else if r = unlogged then some (ascii "error") else none
  readReply text := if text = ascii "reply" then .ok accepted else .ok unlogged
  writeTransaction _ := none
  readTransaction _ := .error []
  writeJob j := if j = job then some (ascii "job") else none
  readJob _ := .ok job
  writeQuery _ := none

theorem roundTrips : RoundTrips daemon glaze where
  method := by
    intro m text h
    simp only [glaze] at h
    split at h
    · rename_i hm
      rw [hm]
      rfl
    · cases h
  reply := by
    intro r text h
    simp only [glaze] at h
    split at h
    · rename_i hr
      cases h
      rw [hr]
      rfl
    · split at h
      · rename_i hr
        cases h
        rw [hr]
        rfl
      · cases h
  transaction := by
    intro t text h
    cases h
  job := by
    intro j text h
    simp only [glaze] at h
    split at h
    · rename_i hj
      rw [hj]
      rfl
    · cases h

def request : Request := reboot.request 0 (ascii "request")

def launched : World := daemon.live Fixture.device (.launch [] [{ config := Fixture.config }])

/-- The random id, and what the logger throws. -/
def meanwhile (what : Option Bytes) : Meanwhile := ⟨[{ id := Fixture.id }], what⟩

def served (what : Option Bytes) : Option Bytes × World := (server daemon glaze).serve request (meanwhile what) launched

/-- The daemon is started, the call is sent, served and answered. -/
def bus (what : Option Bytes) (text : Bytes) : Bus where
  server := (served what).2
  history :=
    [.idled (.launch [] [{ config := Fixture.config }]), .sent 0 request,
      .served 0 request (meanwhile what) (some text), .closed 0 (some text)]

theorem reachable {what : Option Bytes} {text : Bytes} (h : (served what).1 = some text) :
    Exchange.Reachable (server daemon glaze) Fixture.device (bus what text) := by
  have hidle := Exchange.Step.idle (V := server daemon glaze) (s := ⟨Fixture.device, []⟩)
    (.launch [] [{ config := Fixture.config }])
  have hsend := Exchange.Step.send (V := server daemon glaze)
    (s := ⟨launched, [.idled (.launch [] [{ config := Fixture.config }])]⟩) 0 request (by
      intro e he
      rw [List.mem_singleton] at he
      rw [he]
      exact id)
  have hserve := Exchange.Step.serve (V := server daemon glaze)
    (s := ⟨launched, [.idled (.launch [] [{ config := Fixture.config }]), .sent 0 request]⟩) 0 request (meanwhile what)
    (by simp) (by
      intro e he
      simp only [List.mem_cons, List.not_mem_nil, or_false] at he
      rcases he with he | he
      · rw [he]
        exact id
      · rw [he]
        exact id)
  have hreply : ((server daemon glaze).serve request (meanwhile what) launched).1 = some text := h
  rw [hreply] at hserve
  have hdeliver := Exchange.Step.deliver (V := server daemon glaze)
    (s := ⟨(served what).2, [.idled (.launch [] [{ config := Fixture.config }]), .sent 0 request,
      .served 0 request (meanwhile what) (some text)]⟩) 0 request (meanwhile what) text (by simp) (by
      intro e he
      simp only [List.mem_cons, List.not_mem_nil, or_false] at he
      rcases he with he | he | he
      · rw [he]
        exact id
      · rw [he]
        exact id
      · rw [he]
        exact id)
  exact (((Relation.ReflTransGen.single hidle).tail hsend).tail hserve).tail hdeliver

theorem quiet {what : Option Bytes} {text : Bytes} : Quiet (bus what text).history := by
  intro k r x reply h
  simp only [bus, List.mem_cons, reduceCtorEq, Exchange.Event.served.injEq, List.not_mem_nil, or_false, false_or] at h
  rw [h.2.2.1]
  intro c hc
  simp only [meanwhile, List.mem_singleton] at hc
  rw [hc]
  simp [Error.Coded]

end Sample

theorem success_was_done_reboot : ∃ a,
    Exchange.Answered (Sample.bus none (ascii "reply")).history 0 Sample.request (ascii "reply") a ∧
    ∃ w', perform Sample.daemon.site (Sample.reboot.op Sample.daemon 0) a.x.script
      (Sample.daemon.lives Fixture.device (lifeOf (a.past 0 Sample.request))) = (.ret (.job Sample.job), w') := by
  have hserved : (Sample.served none).1 = some (ascii "reply") := by decide
  exact (success_was_done Sample.roundTrips (Sample.reachable hserved) Sample.quiet rfl (by simp [Sample.bus, Sample.request])
    (by simp [Sample.bus]) rfl).2

/-- The logger throws after the job was accepted. -/
theorem failure_may_be_done_unlogged : ∃ a,
    Exchange.Answered (Sample.bus (some (ascii "no journal")) (ascii "error")).history 0 Sample.request (ascii "error") a ∧
    ((Sample.daemon.request Sample.request a.x.script
        (Sample.daemon.lives Fixture.device (lifeOf (a.past 0 Sample.request)))).1 =
          .raise ⟨.internalError, ascii "no journal"⟩ ∨
      (⟨.internalError, ascii "no journal"⟩ : Error) = tooLarge ∨
      AfterError a.x.unlogged ⟨.internalError, ascii "no journal"⟩ ∧ ∃ r w',
        perform Sample.daemon.site (Sample.reboot.op Sample.daemon 0) a.x.script
          (Sample.daemon.lives Fixture.device (lifeOf (a.past 0 Sample.request))) = (.ret r, w')) := by
  have hserved : (Sample.served (some (ascii "no journal"))).1 = some (ascii "error") := by decide
  exact failure_may_be_done Sample.roundTrips (Sample.reachable hserved) Sample.quiet rfl
    (by simp [Sample.bus, Sample.request]) (by simp [Sample.bus]) rfl

end Monutchee.System.Client
