import Monutchee.System.Run

/-!
# The D-Bus service (main.cpp, access_policy.hpp, audit.hpp, protocol.hpp)

The handler that serves one request, the worker that ticks between requests, and the life of
the service over restarts. What Glaze makes of a request text is given by a `Codec`; the
limit on its length, the table of rights, the table of operations and the identity that is
passed on to the Backend are as in the source.
-/

namespace Monutchee.System
open Lib Lib.Act

/-! ### The identity of a caller (audit.hpp:6-17) -/

structure AuditContext where
  actor : Bytes := []
  requestId : Bytes := []
  deriving DecidableEq, Repr

/-- The decimal digits of a number before a text, at most as many as the first argument says. -/
def decimalBefore : ℕ → ℕ → Bytes → Bytes
  | 0, _, text => text
  | digits + 1, n, text =>
    let text := UInt8.ofNat (48 + n % 10) :: text
    if n / 10 = 0 then text else decimalBefore digits (n / 10) text

/-- std::to_string of an unsigned number of at most 64 bits. -/
def decimal (n : ℕ) : Bytes := decimalBefore 20 n []

def safe (value : Bytes) (bound : ℕ) : Bool :=
  value.length ≤ bound && !value.any fun c => c < 32 || c == 127

def untrusted (peer : UInt32) : AuditContext := { actor := ascii "uid:" ++ decimal peer.toNat }

/-- `trustedAuditContext`: an identity is taken from the message only when the peer is the
configured authority. -/
def trustedAuditContext (context : AuditContext) (peer : UInt32) (trusted : Option UInt32) :
    AuditContext :=
  if trusted = some peer then
    { actor := if context.actor.isEmpty || !safe context.actor 256 then ascii "unknown"
        else context.actor
      requestId := if safe context.requestId 128 then context.requestId else [] }
  else untrusted peer

/-! ### Rights (access_policy.hpp) -/

namespace Access

def settingsOperation (name : Bytes) : Bool :=
  name == ascii "ApplyPreferences" || name == ascii "BeginNetwork" ||
    name == ascii "PrepareNetworkCommit" || name == ascii "FinishNetwork"

def controlOperation (name : Bytes) : Bool := name == ascii "Power" || name == ascii "ResetDevice"

def allowed (name : Bytes) (uid : UInt32) (settingsUid controlUid : Option UInt32) : Bool :=
  if settingsOperation name then uid == 0 || settingsUid == some uid
  else if controlOperation name then uid == 0 || controlUid == some uid
  else
    name == ascii "GetStatus" || name == ascii "GetTime" || name == ascii "ListTimezones" ||
      name == ascii "GetTimezoneCatalog" || name == ascii "GetTemperatures" ||
      name == ascii "GetNetworkTransaction" || name == ascii "GetJob"

end Access

/-! ### Messages (protocol.hpp) -/

def maxMessageSize : ℕ := 65536

/-- decode (protocol.hpp:32-40); `read` is glz::read_json, with its formatted error. -/
def decode {α : Type} (read : Bytes → Except Bytes α) (text : Bytes) : Except Error α :=
  if maxMessageSize < text.length then .error ⟨.invalidArgument, ascii "message too large"⟩
  else
    match read text with
    | .error reason => .error ⟨.invalidArgument, ascii "invalid system request: " ++ reason⟩
    | .ok value => .ok value

/-- glz::read_json for each type that a request may carry. -/
structure Codec where
  empty : Bytes → Except Bytes Unit
  configuration : Bytes → Except Bytes Configuration
  proposal : Bytes → Except Bytes (NetworkProposal × AuditContext)
  id : Bytes → Except Bytes Bytes
  finish : Bytes → Except Bytes (Bytes × Bool × AuditContext)
  power : Bytes → Except Bytes (PowerAction × AuditContext)
  reset : Bytes → Except Bytes (Bool × AuditContext)

/-- A running service: its site, the accounts of its two authorities and its reader. -/
structure Daemon where
  site : Site
  settingsUid : Option UInt32 := none
  controlUid : Option UInt32 := none
  read : Codec

/-- A method call as sd-bus delivers it: the peer's identity or the error of the query for it,
the member name and the string argument if there is one. -/
structure Request where
  peer : Except Error UInt32
  member : Bytes
  body : Option Bytes

/-- The queries that only read. -/
inductive Query where
  | status | time | timezones | timezoneCatalog | temperatures | job
  deriving DecidableEq, Repr

inductive Action where
  | query (q : Query)
  | call (op : Op)
  deriving DecidableEq, Repr

inductive Answer where
  | query (q : Query)
  | reply (r : Backend.Reply)
  deriving DecidableEq, Repr

namespace Daemon
variable (D : Daemon)

/-! ### The handler (main.cpp:28-120) -/

def settingsContext (uid : UInt32) (value : AuditContext) : AuditContext :=
  trustedAuditContext value uid D.settingsUid

def controlContext (uid : UInt32) (value : AuditContext) : AuditContext :=
  trustedAuditContext value uid D.controlUid

def query (q : Query) (json : Bytes) : Except Error Action := do
  decode D.read.empty json
  return .query q

/-- The chain of comparisons with the member name (main.cpp:55-90). -/
def dispatch (uid : UInt32) (name json : Bytes) : Except Error Action :=
  if name = ascii "GetStatus" then D.query .status json
  else if name = ascii "GetTime" then D.query .time json
  else if name = ascii "ListTimezones" then D.query .timezones json
  else if name = ascii "GetTimezoneCatalog" then D.query .timezoneCatalog json
  else if name = ascii "GetTemperatures" then D.query .temperatures json
  else if name = ascii "ApplyPreferences" then
    (decode D.read.configuration json).map fun config => .call (.apply config)
  else if name = ascii "BeginNetwork" then
    (decode D.read.proposal json).map fun (p, value) =>
      let context := D.settingsContext uid value
      .call (.beginNetwork p context.actor context.requestId)
  else if name = ascii "GetNetworkTransaction" then
    (decode D.read.empty json).map fun _ => .call .networkTransaction
  else if name = ascii "PrepareNetworkCommit" then
    (decode D.read.id json).map fun id => .call (.prepareNetworkCommit id)
  else if name = ascii "FinishNetwork" then
    (decode D.read.finish json).map fun (id, commit, value) =>
      let context := D.settingsContext uid value
      .call (.finishNetwork id commit context.actor context.requestId)
  else if name = ascii "Power" then
    (decode D.read.power json).map fun (action, value) =>
      let context := D.controlContext uid value
      .call (.power action context.actor context.requestId)
  else if name = ascii "ResetDevice" then
    (decode D.read.reset json).map fun (confirmed, value) =>
      let context := D.controlContext uid value
      .call (.resetDevice confirmed context.actor context.requestId)
  else if name = ascii "GetJob" then D.query .job json
  else .error ⟨.unsupported, ascii "unknown system operation"⟩

/-- What a request comes to before anything is done: the peer is identified, its right is
checked, and only then is the text read. -/
def authorize (r : Request) : Except Error Action := do
  let uid ← r.peer
  if Access.allowed r.member uid D.settingsUid D.controlUid then
    match r.body with
    | none => .error ⟨.invalidArgument, ascii "missing request"⟩
    | some json => D.dispatch uid r.member json
  else .error ⟨.permissionDenied, ascii "operation is not allowed for this service identity"⟩

/-- A query of the platform, which may raise. -/
def ask (q : Query) : Prog Answer := effect fun c w =>
  if c.fails then (.raise c.error, w) else (.ret (.query q), w)

/-- The job is read from memory. -/
def answer (q : Query) : Prog Answer := if q = .job then pure (.query q) else ask q

/-- One request. An error is the reply and changes nothing else. -/
def request (r : Request) (script : List Choice) (w : World) : Outcome Error Answer × World :=
  match D.authorize r with
  | .error e => (.raise e, { w with script := script })
  | .ok (.query q) => answer q { w with script := script }
  | .ok (.call op) =>
    match perform D.site op script w with
    | (.ret reply, w') => (.ret (.reply reply), w')
    | (.raise e, w') => (.raise e, w')
    | (.crash, w') => (.crash, w')

/-- One round of the worker (main.cpp:150-164): a tick that raises ends the service. -/
def worker (script : List Choice) (w : World) : World :=
  match perform D.site .tick script w with
  | (.raise _, w') => { w' with alive := false }
  | (_, w') => w'

end Daemon

/-! ### Runs of the service -/

/-- What the environment still does when the program has ended before its script: it may stop
the process, and the settings authority writes. -/
def drainAll : List Choice → World → World
  | [], w => w
  | c :: cs, w => drainAll cs (if c.crash then { w with alive := false } else w.authority c.writes)

def World.drain (w : World) : World := drainAll w.script { w with script := [] }

/-- What happens to a running service. `swallow` is a bare tick of the Backend whose error is
dropped and `pause` is nothing at all: no part of the service does these, they are what the
request of a peer without rights is compared with. -/
inductive Input where
  | request (r : Request) (script : List Choice)
  | tick (script : List Choice)
  | swallow (script : List Choice)
  | pause (script : List Choice)
  | status (file : StatusFile)

/-- The choices of the environment in an input. -/
def Input.script : Input → List Choice
  | .request _ script | .tick script | .swallow script | .pause script => script
  | .status _ => []

namespace Daemon
variable (D : Daemon)

/-- The history marks the tick as the query that it stands for. -/
def swallow (script : List Choice) (w : World) : World :=
  match Backend.tick D.site (entered .networkTransaction script w) with
  | (.crash, w') => { w' with alive := false }
  | (_, w') => w'

def act (w : World) : Input → World
  | .request r script => if w.alive then (D.request r script w).2 else { w with script := script }
  | .tick script => if w.alive then D.worker script w else { w with script := script }
  | .swallow script => if w.alive then D.swallow script w else { w with script := script }
  | .pause script => { w with script := script }
  | .status file => { w with status := file, script := [] }

/-- All that one input can come to. -/
inductive Acts (w : World) : Input → World → Prop where
  | idle (i : Input) : Acts w i { w with script := i.script }
  | query (r : Request) (script : List Choice) (q : Query) : D.authorize r = .ok (.query q) →
      Acts w (.request r script) (answer q { w with script := script }).2
  | call (r : Request) (script : List Choice) (op : Op) : w.alive = true →
      D.authorize r = .ok (.call op) → Acts w (.request r script) (perform D.site op script w).2
  | tick (script : List Choice) : w.alive = true →
      Acts w (.tick script) (perform D.site .tick script w).2
  | tickStops (script : List Choice) : w.alive = true →
      Acts w (.tick script) { (perform D.site .tick script w).2 with alive := false }
  | swallow (script : List Choice) : w.alive = true → Acts w (.swallow script)
      (Backend.tick D.site (entered .networkTransaction script w)).2
  | swallowStops (script : List Choice) : w.alive = true → Acts w (.swallow script)
      { (Backend.tick D.site (entered .networkTransaction script w)).2 with alive := false }
  | status (file : StatusFile) : Acts w (.status file) { w with status := file, script := [] }

theorem request_world {r : Request} {op : Op} (h : D.authorize r = .ok (.call op))
    (script : List Choice) (w : World) : (D.request r script w).2 = (perform D.site op script w).2 := by
  unfold request
  simp only [h]
  rcases perform D.site op script w with ⟨o, w'⟩
  cases o with
  | ret reply => rfl
  | raise e => rfl
  | crash => rfl

theorem request_acts (r : Request) (script : List Choice) {w : World} (ha : w.alive = true) :
    D.Acts w (.request r script) (D.request r script w).2 := by
  cases h : D.authorize r with
  | error e =>
    unfold request
    rw [h]
    exact Acts.idle _
  | ok a =>
    cases a with
    | query q =>
      unfold request
      rw [h]
      exact Acts.query r script q h
    | call op =>
      rw [D.request_world h]
      exact Acts.call r script op ha h

theorem worker_acts (script : List Choice) {w : World} (ha : w.alive = true) :
    D.Acts w (.tick script) (D.worker script w) := by
  have ht := Acts.tick (D := D) script ha
  have hs := Acts.tickStops (D := D) script ha
  unfold worker
  rcases hp : perform D.site .tick script w with ⟨o, w'⟩
  rw [hp] at ht hs
  cases o with
  | ret r => exact ht
  | raise e => exact hs
  | crash => exact ht

theorem swallow_acts (script : List Choice) {w : World} (ha : w.alive = true) :
    D.Acts w (.swallow script) (D.swallow script w) := by
  have ht := Acts.swallow (D := D) script ha
  have hs := Acts.swallowStops (D := D) script ha
  unfold swallow
  rcases hp : Backend.tick D.site (entered .networkTransaction script w) with ⟨o, w'⟩
  rw [hp] at ht hs
  cases o with
  | ret r => exact ht
  | raise e => exact ht
  | crash => exact hs

theorem acts (w : World) (i : Input) : D.Acts w i (D.act w i) := by
  cases i with
  | request r script =>
    by_cases ha : w.alive = true
    · rw [act, if_pos ha]
      exact D.request_acts r script ha
    · rw [act, if_neg ha]
      exact Acts.idle _
  | tick script =>
    by_cases ha : w.alive = true
    · rw [act, if_pos ha]
      exact D.worker_acts script ha
    · rw [act, if_neg ha]
      exact Acts.idle _
  | swallow script =>
    by_cases ha : w.alive = true
    · rw [act, if_pos ha]
      exact D.swallow_acts script ha
    · rw [act, if_neg ha]
      exact Acts.idle _
  | pause script => exact Acts.idle _
  | status file => exact Acts.status file

end Daemon

/-- Calls of the platform that change it. -/
def Entry.changesPlatform : Entry → Bool
  | .network _ _ | .networkFailed _ _ | .preferences _ _ | .ssh _ _ | .clock _ _ | .hostname _ _
  | .power _ _ _ => true
  | _ => false

/-- A service between two inputs. The history is cut to the calls that change the platform,
oldest first. -/
structure Served where
  world : World
  calls : List Entry := []

def Served.take (s : Served) (w : World) : Served where
  world := { w with trace := [] }
  calls := s.calls ++ (w.trace.filter Entry.changesPlatform).reverse

namespace Daemon
variable (D : Daemon)

def serve (s : Served) (i : Input) : Served :=
  s.take (D.act { s.world with trace := [] } i).drain

def serveAll (s : Served) (is : List Input) : Served := is.foldl D.serve s

end Daemon

/-! ### Life of the service over restarts -/

inductive Life where
  | bootstrap (built script : List Choice)
  | launch (built script : List Choice)
  | stop
  | input (i : Input)

namespace Daemon
variable (D : Daemon)

/-- The process `mnc-system-manager --bootstrap` (main.cpp:201-206). -/
def bootstrapProcess (built script : List Choice) (w : World) : World :=
  let w₁ := step D.site w (.restart built)
  if w₁.alive then { (perform D.site .bootstrap script w₁).2 with alive := false } else w₁

/-- The service process up to the end of on_start (main.cpp:121-122): start may raise. -/
def launchProcess (built script : List Choice) (w : World) : World :=
  let w₁ := step D.site w (.restart built)
  if w₁.alive then
    match perform D.site .start script w₁ with
    | (.raise _, w') => { w' with alive := false }
    | (_, w') => w'
  else w₁

def live (w : World) : Life → World
  | .bootstrap built script => D.bootstrapProcess built script w
  | .launch built script => D.launchProcess built script w
  | .stop => { w with alive := false }
  | .input i => (D.act w i).drain

def lives (w : World) (ls : List Life) : World := ls.foldl D.live w

end Daemon

end Monutchee.System
