import Monutchee.Lib.Path
import Monutchee.Lib.Session
import Monutchee.System.Data

/-!
# The life of the service process (service.cpp:80-146, main.cpp:121-193)

`Service::execute` on the main thread and the worker of the daemon run side by side. They share the
stop flag, the reload flag and `failed_`; every read and every write of a shared flag is a step of
its own, and the threads take their steps in any order. Any statement in the `try` block may throw.
-/

namespace Monutchee.Service.Lifecycle
open Lib Relation
open Monutchee.System (Bytes ascii)

/-! ### What the process does -/

/-- What `sigtimedwait` returns; `quiet` is EAGAIN or EINTR. -/
inductive Signal where
  | interrupt | terminate | hangup | quiet
  deriving DecidableEq, Repr

structure ServiceHealth where
  healthy : Bool
  summary : Bytes
  deriving DecidableEq, Repr

/-- The text of `Daemon::health` (main.cpp:183-185), which reads the flag once for each field. -/
def healthSummary (failed : Bool) : Bytes :=
  if failed then ascii "system worker failed" else ascii "system manager ready"

inductive Notice where
  | ready (summary : Bytes)
  | watchdog (summary : Bytes)
  | stopping
  deriving DecidableEq, Repr

def serviceName : Bytes := ascii "MNC system manager"

/-- The message to systemd. -/
def Notice.text : Notice → Bytes
  | .ready summary => ascii "READY=1\nSTATUS=" ++ summary
  | .watchdog summary => ascii "WATCHDOG=1\nSTATUS=" ++ summary
  | .stopping => ascii "STOPPING=1\nSTATUS=" ++ serviceName ++ ascii " is stopping"

/-- `tick` and `request` are calls of the Backend, `raised` is an exception on the main thread. -/
inductive Event where
  | started
  | health (h : ServiceHealth)
  | notice (n : Notice)
  | reloaded
  | raised
  | log (message event : Bytes)
  | tick
  | request
  | workerFailed
  | joined
  deriving DecidableEq, Repr

/-- Where the main thread is. `reading` is between the two reads of `health`, for the greeting or for
the watchdog; `greeted` and `reloaded` are before a line of the log. -/
inductive Main where
  | block
  | start
  | announce
  | reading (greeting healthy : Bool)
  | greet (summary : Bytes)
  | greeted
  | poll
  | wait
  | exchange
  | reloaded
  | check
  | pet (summary : Bytes)
  | caught (what : Option Bytes)
  | stopping
  | join
  | close
  | ended
  | returned (code : ℕ)
  deriving DecidableEq, Repr

/-- Where the worker is. -/
inductive Worker where
  | absent
  | poll
  | tick
  | process
  | wait
  | failing (what : Bytes)
  | mark
  | ask
  | done
  deriving DecidableEq, Repr

structure State where
  main : Main := .block
  worker : Worker := .absent
  stop : Bool := false
  reload : Bool := false
  failed : Bool := false
  started : Bool := false
  result : ℕ := 0
  history : List Event := []
  deriving DecidableEq, Repr

/-- A thread goes on. `raise` is an exception on the main thread, without a text if it is not a
`std::exception`, `fail` one on the worker, `serve` a message that the bus had. -/
inductive Move where
  | main
  | signal (s : Signal)
  | raise (what : Option Bytes)
  | worker
  | fail (what : Bytes)
  | serve
  deriving DecidableEq, Repr

def State.note (s : State) (events : List Event) : State := { s with history := s.history ++ events }

def failure : Option Bytes → Bytes
  | some what => serviceName ++ ascii " failed: " ++ what
  | none => serviceName ++ ascii " failed with an unknown exception"

def readyLine : Event := .log (serviceName ++ ascii " is ready") (ascii "service_ready")
def reloadedLine : Event := .log (serviceName ++ ascii " reloaded") (ascii "service_reloaded")
def failedLine (what : Option Bytes) : Event := .log (failure what) (ascii "service_failed")
def stoppedLine : Event := .log (serviceName ++ ascii " stopped") (ascii "service_stopped")
def unblockedLine : Event := .log (ascii "failed to block lifecycle signals") (ascii "signal_setup_failed")

/-- The main thread (service.cpp:80-146, main.cpp:176-193). -/
def stepMain (s : State) : Option State :=
  match s.main with
  | .block => some { s with main := .start }
  | .start => some { s.note [.started] with main := .announce, worker := .poll, started := true }
  | .announce => some { s with main := .reading true (!s.failed) }
  | .reading greeting healthy =>
    let noted := s.note [.health ⟨healthy, healthSummary s.failed⟩]
    if greeting then some { noted with main := .greet (healthSummary s.failed) }
    else if healthy then some { noted with main := .pet (healthSummary s.failed) }
    else some { noted with main := .poll, result := 1, stop := true }
  | .greet summary => some { s.note [.notice (.ready summary)] with main := .greeted }
  | .greeted => some { s.note [readyLine] with main := .poll }
  | .poll => some { s with main := if s.stop then .stopping else .wait }
  | .wait => none
  | .exchange =>
    if s.reload then some { s.note [.reloaded] with main := .reloaded, reload := false }
    else some { s with main := .check }
  | .reloaded => some { s.note [reloadedLine] with main := .check }
  | .check => some { s with main := .reading false (!s.failed) }
  | .pet summary => some { s.note [.notice (.watchdog summary)] with main := .poll }
  | .caught what => some { s.note [failedLine what] with main := .stopping, result := 1 }
  | .stopping => some { s.note [.notice .stopping] with main := if s.started then .join else .close }
  | .join => if s.worker = .done then some { s.note [.joined] with main := .close } else none
  | .close => some { s.note [stoppedLine] with main := .ended }
  | .ended => some { s with main := .returned (if s.failed then 1 else s.result) }
  | .returned _ => none

def stepSignal (s : State) (signal : Signal) : Option State :=
  match s.main, signal with
  | .wait, .interrupt => some { s with main := .exchange, stop := true }
  | .wait, .terminate => some { s with main := .exchange, stop := true }
  | .wait, .hangup => some { s with main := .exchange, reload := true }
  | .wait, .quiet => some { s with main := .exchange }
  | _, _ => none

/-- Where the main thread may throw. -/
def Main.throws : Main → Bool
  | .start | .announce | .reading .. | .greet _ | .greeted | .wait | .exchange | .reloaded | .check | .pet _ => true
  | _ => false

/-- An exception, or the failure to block the signals; a reload that throws was taken. -/
def stepRaise (s : State) (what : Option Bytes) : Option State :=
  if s.main = .block then some { s.note [unblockedLine] with main := .ended, result := 1 }
  else if s.main.throws then some
    { s.note [.raised] with main := .caught what, reload := s.reload && s.main != .exchange }
  else none

/-- The worker (main.cpp:149-164) -/
def stepWorker (s : State) : Option State :=
  match s.worker with
  | .absent => none
  | .poll => some { s with worker := if s.stop then .done else .tick }
  | .tick => some { s.note [.tick] with worker := .process }
  | .process => some { s with worker := .wait }
  | .wait => some { s with worker := .poll }
  | .failing what => some { s.note [.log what (ascii "system_worker_failed")] with worker := .mark }
  | .mark => some { s.note [.workerFailed] with worker := .ask, failed := true }
  | .ask => some { s with worker := .done, stop := true }
  | .done => none

def stepFail (s : State) (what : Bytes) : Option State :=
  match s.worker with
  | .tick => some { s.note [.tick] with worker := .failing what }
  | .process => some { s with worker := .failing (ascii "system bus disconnected") }
  | _ => none

def stepServe (s : State) : Option State :=
  match s.worker with
  | .process => some { s.note [.request] with worker := .poll }
  | _ => none

def step (s : State) : Move → Option State
  | .main => stepMain s
  | .signal signal => stepSignal s signal
  | .raise what => stepRaise s what
  | .worker => stepWorker s
  | .fail what => stepFail s what
  | .serve => stepServe s

def run (s : State) : List Move → Option State
  | [] => some s
  | m :: moves => (step s m).bind fun s' => run s' moves

def Steps (s s' : State) : Prop := ∃ m, step s m = some s'

def Reachable (s : State) : Prop := ReflTransGen Steps {} s

/-! ### What a history shows -/

/-- `last` is the last health that was read, `late` counts the watchdog messages after the worker
marked its failure. -/
structure Seen where
  started : Bool := false
  ready : Bool := false
  stopping : Bool := false
  joined : Bool := false
  failed : Bool := false
  raised : Bool := false
  unhealthy : Bool := false
  last : Option ServiceHealth := none
  late : ℕ := 0
  deriving DecidableEq, Repr

def Seen.add (v : Seen) : Event → Seen
  | .started => { v with started := true }
  | .health h => { v with last := some h, unhealthy := v.unhealthy || !h.healthy }
  | .notice (.ready _) => { v with ready := true }
  | .notice (.watchdog _) => { v with late := if v.failed then v.late + 1 else v.late }
  | .notice .stopping => { v with stopping := true }
  | .raised => { v with raised := true }
  | .workerFailed => { v with failed := true }
  | .joined => { v with joined := true }
  | _ => v

def seen (history : List Event) : Seen := history.foldl Seen.add {}

/-- What an event needs: the service says once that it is ready, after its start and before all else
it says; it pets the watchdog only between that and its stop, on a healthy reading; it stops once,
calls the Backend only between its start and the end of the worker, and waits for that once, after
it said that it stops. -/
def allowed (v : Seen) : Event → Prop
  | .started => v = {}
  | .notice (.ready _) => v.started = true ∧ v.ready = false ∧ v.stopping = false
  | .notice (.watchdog summary) => v.ready = true ∧ v.stopping = false ∧ v.last = some ⟨true, summary⟩
  | .notice .stopping => v.stopping = false
  | .reloaded => v.ready = true ∧ v.stopping = false
  | .tick | .request => v.started = true ∧ v.joined = false
  | .workerFailed => v.started = true ∧ v.joined = false ∧ v.failed = false
  | .joined => v.started = true ∧ v.stopping = true ∧ v.joined = false
  | _ => True

def licence (before : List Event) (e : Event) : Prop := allowed (seen before) e

theorem seen_append (h : List Event) (events : List Event) : seen (h ++ events) = events.foldl Seen.add (seen h) := by
  unfold seen
  rw [List.foldl_append]

/-! ### The invariant -/

/-- What the history shows before the service said that it is ready. -/
structure Greeting (s : State) (v : Seen) : Prop where
  started : v.started = true
  ready : v.ready = false
  stopping : v.stopping = false
  joined : v.joined = false
  raised : v.raised = false
  result : s.result = 0

/-- What the history shows while the main thread is in the loop. -/
structure Looping (s : State) (v : Seen) : Prop where
  started : v.started = true
  ready : v.ready = true
  stopping : v.stopping = false
  joined : v.joined = false
  raised : v.raised = false
  result : s.result = 0 ∨ s.result = 1 ∧ s.stop = true ∧ v.failed = true

/-- The result of `execute` when the loop is left. -/
structure Verdict (s : State) (v : Seen) : Prop where
  bound : s.result ≤ 1
  good : s.result = 0 → v.started = true ∧ v.raised = false
  bad : s.result = 1 → v.started = false ∨ v.raised = true ∨ v.failed = true
  asked : v.started = true → v.raised = false → s.stop = true

def MainAgrees (s : State) (v : Seen) : Main → Prop
  | .block | .start => v = {} ∧ s.result = 0
  | .announce | .greet _ => Greeting s v
  | .reading true healthy => Greeting s v ∧ (healthy = false → v.failed = true)
  | .greeted | .poll | .wait | .exchange | .reloaded | .check => Looping s v
  | .reading false healthy => Looping s v ∧ (healthy = false → v.failed = true)
  | .pet summary => Looping s v ∧ v.last = some ⟨true, summary⟩
  | .caught _ => v.stopping = false ∧ v.joined = false ∧ v.raised = true
  | .stopping => v.stopping = false ∧ v.joined = false ∧ Verdict s v
  | .join => v.started = true ∧ v.stopping = true ∧ v.joined = false ∧ Verdict s v
  | .close | .ended => v.joined = v.started ∧ Verdict s v
  | .returned code => v.joined = v.started ∧
    (code = 0 ↔ v.started = true ∧ v.raised = false ∧ v.failed = false)

/-- A watchdog message may still follow. -/
def Main.petting : Main → ℕ
  | .reading false true | .pet _ => 1
  | _ => 0

structure Agrees (s : State) (v : Seen) : Prop where
  main : MainAgrees s v s.main
  started : s.started = v.started
  absent : s.worker = .absent ↔ v.started = false
  failed : s.failed = v.failed
  marked : v.failed = true → s.worker = .ask ∨ s.worker = .done
  finished : s.worker = .done → s.stop = true
  joined : v.joined = true → s.worker = .done
  unhealthy : v.unhealthy = true → v.failed = true
  late : v.late + s.main.petting ≤ 1
  early : v.failed = false → v.late = 0

structure Inv (s : State) : Prop where
  agrees : Agrees s (seen s.history)
  licensed : Session.Licensed licence s.history

theorem Inv.initial : Inv {} := by
  refine ⟨?_, Session.licensed_nil⟩
  constructor <;> simp [seen, MainAgrees, Main.petting]

variable {s s' : State}

/-- A step that records nothing. -/
theorem Inv.silent (h : Inv s) (hhistory : s'.history = s.history) (ha : Agrees s' (seen s.history)) : Inv s' := by
  rw [← hhistory] at ha
  exact ⟨ha, hhistory ▸ h.licensed⟩

/-- A step that records one event. -/
theorem Inv.noted (h : Inv s) (e : Event) (hhistory : s'.history = s.history ++ [e])
    (hallowed : allowed (seen s.history) e) (ha : Agrees s' ((seen s.history).add e)) : Inv s' := by
  have hseen : seen s'.history = (seen s.history).add e := by
    rw [hhistory, seen_append]
    rfl
  refine ⟨hseen ▸ ha, ?_⟩
  rw [hhistory]
  exact h.licensed.snoc hallowed

/-- What a step of the main thread leaves alone. -/
structure Untouched (s s' : State) : Prop where
  worker : s'.worker = s.worker
  started : s'.started = s.started
  failed : s'.failed = s.failed
  stop : s.stop = true → s'.stop = true

theorem petting_le (m : Main) : m.petting ≤ 1 := by
  unfold Main.petting
  split <;> omega

/-- The main thread goes on without an event that counts. -/
theorem Agrees.go {v : Seen} (h : Agrees s v) (hu : Untouched s s') (hmain : MainAgrees s' v s'.main)
    (hpetting : s'.main.petting ≤ s.main.petting ∨ v.failed = false) : Agrees s' v := by
  refine ⟨hmain, hu.started.trans h.started, ?_, hu.failed.trans h.failed, ?_, ?_, ?_, h.unhealthy, ?_, h.early⟩
  · rw [hu.worker]
    exact h.absent
  · rw [hu.worker]
    exact h.marked
  · rw [hu.worker]
    exact fun hdone => hu.stop (h.finished hdone)
  · rw [hu.worker]
    exact h.joined
  · have hlate := h.late
    have hone := petting_le s'.main
    rcases hpetting with hle | hfailed
    · omega
    · have hzero := h.early hfailed
      omega

/-- What an event of the main thread may change in what is seen. -/
structure Follows (s : State) (v v' : Seen) : Prop where
  started : v'.started = v.started
  failed : v'.failed = v.failed
  joined : v'.joined = true → v.joined = true ∨ s.worker = .done
  unhealthy : v'.unhealthy = true → v.unhealthy = true ∨ v.failed = true
  early : v'.failed = false → v'.late = 0

/-- The main thread goes on with an event. -/
theorem Agrees.goWith {v v' : Seen} (h : Agrees s v) (hu : Untouched s s') (hv : Follows s v v')
    (hmain : MainAgrees s' v' s'.main) (hlate : v'.late + s'.main.petting ≤ 1) : Agrees s' v' := by
  refine ⟨hmain, ?_, ?_, ?_, ?_, ?_, ?_, ?_, hlate, hv.early⟩
  · rw [hu.started, hv.started]
    exact h.started
  · rw [hu.worker, hv.started]
    exact h.absent
  · rw [hu.failed, hv.failed]
    exact h.failed
  · rw [hu.worker, hv.failed]
    exact h.marked
  · rw [hu.worker]
    exact fun hdone => hu.stop (h.finished hdone)
  · rw [hu.worker]
    intro hjoined
    rcases hv.joined hjoined with hj | hdone
    · exact h.joined hj
    · exact hdone
  · rw [hv.failed]
    intro hunhealthy
    rcases hv.unhealthy hunhealthy with hu | hf
    · exact h.unhealthy hu
    · exact hf

/-- A step of the main thread that records nothing. -/
theorem Inv.moves (h : Inv s) (hhistory : s'.history = s.history) (hu : Untouched s s')
    (hmain : MainAgrees s' (seen s.history) s'.main)
    (hpetting : s'.main.petting ≤ s.main.petting ∨ (seen s.history).failed = false) : Inv s' :=
  h.silent hhistory (h.agrees.go hu hmain hpetting)

/-- One that writes a line of the log. -/
theorem Inv.logs (h : Inv s) {message event : Bytes} (hhistory : s'.history = s.history ++ [.log message event])
    (hu : Untouched s s') (hmain : MainAgrees s' (seen s.history) s'.main) (hpetting : s'.main.petting = 0) : Inv s' :=
  h.noted (.log message event) hhistory trivial (h.agrees.go hu hmain (.inl (by omega)))

/-- One with another event. -/
theorem Inv.tells (h : Inv s) {e : Event} (hhistory : s'.history = s.history ++ [e]) (hallowed : allowed (seen s.history) e)
    (hu : Untouched s s') (hv : Follows s (seen s.history) ((seen s.history).add e))
    (hmain : MainAgrees s' ((seen s.history).add e) s'.main)
    (hlate : ((seen s.history).add e).late + s'.main.petting ≤ 1) : Inv s' :=
  h.noted e hhistory hallowed (h.agrees.goWith hu hv hmain hlate)

theorem Inv.late_le (h : Inv s) : (seen s.history).late ≤ 1 := Nat.le_of_add_right_le h.agrees.late

theorem Looping.of_stop {v : Seen} (h : Looping s v) (hresult : s'.result = s.result)
    (hstop : s.stop = true → s'.stop = true) : Looping s' v := by
  refine ⟨h.started, h.ready, h.stopping, h.joined, h.raised, ?_⟩
  rw [hresult]
  rcases h.result with hzero | ⟨hone, hs, hfailed⟩
  · exact .inl hzero
  · exact .inr ⟨hone, hstop hs, hfailed⟩

/-! ### The main thread -/

theorem stepSignal_inv (h : Inv s) {signal : Signal} (hs : stepSignal s signal = some s') : Inv s' := by
  have ha := h.agrees
  have hcases : s.main = .wait ∧ ∃ stop reload, s' = { s with main := .exchange, stop := stop, reload := reload } ∧
      (s.stop = true → stop = true) := by
    unfold stepSignal at hs
    split at hs
    · rename_i hwait
      exact ⟨hwait, true, s.reload, (Option.some.inj hs).symm, fun _ => rfl⟩
    · rename_i hwait
      exact ⟨hwait, true, s.reload, (Option.some.inj hs).symm, fun _ => rfl⟩
    · rename_i hwait
      exact ⟨hwait, s.stop, true, (Option.some.inj hs).symm, id⟩
    · rename_i hwait
      exact ⟨hwait, s.stop, s.reload, (Option.some.inj hs).symm, id⟩
    · cases hs
  obtain ⟨hwait, stop, reload, rfl, hstop⟩ := hcases
  have hloop : Looping s (seen s.history) := by
    have hmain := ha.main
    rw [hwait] at hmain
    exact hmain
  apply h.silent
  · rfl
  · exact ha.go ⟨rfl, rfl, rfl, hstop⟩ (hloop.of_stop rfl hstop) (.inl (Nat.zero_le _))

/-- An exception in the `try` block comes before anything was said about the end. -/
theorem throws_open {v : Seen} (h : Agrees s v) (hthrows : s.main.throws = true) :
    v.stopping = false ∧ v.joined = false := by
  have hmain := h.main
  cases hm : s.main with
  | start =>
    rw [hm] at hmain
    rw [hmain.1]
    exact ⟨rfl, rfl⟩
  | announce =>
    rw [hm] at hmain
    exact ⟨hmain.stopping, hmain.joined⟩
  | reading greeting healthy =>
    rw [hm] at hmain
    cases greeting with
    | true => exact ⟨hmain.1.stopping, hmain.1.joined⟩
    | false => exact ⟨hmain.1.stopping, hmain.1.joined⟩
  | greet summary =>
    rw [hm] at hmain
    exact ⟨hmain.stopping, hmain.joined⟩
  | greeted =>
    rw [hm] at hmain
    exact ⟨hmain.stopping, hmain.joined⟩
  | wait =>
    rw [hm] at hmain
    exact ⟨hmain.stopping, hmain.joined⟩
  | exchange =>
    rw [hm] at hmain
    exact ⟨hmain.stopping, hmain.joined⟩
  | reloaded =>
    rw [hm] at hmain
    exact ⟨hmain.stopping, hmain.joined⟩
  | check =>
    rw [hm] at hmain
    exact ⟨hmain.stopping, hmain.joined⟩
  | pet summary =>
    rw [hm] at hmain
    exact ⟨hmain.1.stopping, hmain.1.joined⟩
  | _ =>
    rw [hm] at hthrows
    cases hthrows

theorem stepRaise_inv (h : Inv s) {what : Option Bytes} (hs : stepRaise s what = some s') : Inv s' := by
  have ha := h.agrees
  unfold stepRaise at hs
  split at hs
  · rename_i hblock
    cases hs
    have hmain := ha.main
    rw [hblock] at hmain
    obtain ⟨hv, -⟩ := hmain
    apply h.logs
    · rfl
    · exact ⟨rfl, rfl, rfl, id⟩
    · rw [hv]
      exact ⟨rfl, by simp, by simp, by simp, by simp⟩
    · rfl
  · split at hs
    · rename_i hthrows
      cases hs
      obtain ⟨hstopping, hjoined⟩ := throws_open ha hthrows
      apply h.tells (e := .raised)
      · rfl
      · trivial
      · exact ⟨rfl, rfl, rfl, id⟩
      · exact ⟨rfl, rfl, fun hj => .inl hj, fun hu => .inl hu, ha.early⟩
      · exact ⟨hstopping, hjoined, rfl⟩
      · exact h.late_le
    · cases hs

theorem block_inv (h : Inv s) (hm : s.main = .block) : Inv { s with main := .start } := by
  have hmain := h.agrees.main
  rw [hm] at hmain
  apply h.moves
  · rfl
  · exact ⟨rfl, rfl, rfl, id⟩
  · exact hmain
  · exact .inl (Nat.zero_le _)

/-- The worker is there from now on. -/
theorem start_inv (h : Inv s) (hm : s.main = .start) :
    Inv { s.note [.started] with main := .announce, worker := .poll, started := true } := by
  have hmain := h.agrees.main
  rw [hm] at hmain
  obtain ⟨hv, hresult⟩ := hmain
  apply h.noted .started rfl hv
  rw [hv]
  have hfailed := h.agrees.failed
  rw [hv] at hfailed
  refine ⟨⟨rfl, rfl, rfl, rfl, rfl, hresult⟩, rfl, ?_, hfailed, ?_, ?_, ?_, ?_, ?_, ?_⟩
  · simp [Seen.add]
  · simp [Seen.add]
  · simp
  · simp [Seen.add]
  · simp [Seen.add]
  · simp [Seen.add, Main.petting]
  · simp [Seen.add]

/-- A flag that is read as set was set by the worker. -/
theorem Inv.read_failed (h : Inv s) : (!s.failed) = false → (seen s.history).failed = true := by
  intro hhealthy
  rw [← h.agrees.failed]
  simpa using hhealthy

theorem announce_inv (h : Inv s) (hm : s.main = .announce) : Inv { s with main := .reading true (!s.failed) } := by
  have hmain := h.agrees.main
  rw [hm] at hmain
  apply h.moves
  · rfl
  · exact ⟨rfl, rfl, rfl, id⟩
  · exact ⟨⟨hmain.started, hmain.ready, hmain.stopping, hmain.joined, hmain.raised, hmain.result⟩, h.read_failed⟩
  · exact .inl (Nat.zero_le _)

theorem health_follows (h : Inv s) {healthy : Bool} {summary : Bytes}
    (hfailed : healthy = false → (seen s.history).failed = true) :
    Follows s (seen s.history) ((seen s.history).add (.health ⟨healthy, summary⟩)) := by
  refine ⟨rfl, rfl, fun hj => .inl hj, ?_, h.agrees.early⟩
  intro hunhealthy
  simp only [Seen.add, Bool.or_eq_true, Bool.not_eq_true'] at hunhealthy
  rcases hunhealthy with hu | hu
  · exact .inl hu
  · exact .inr (hfailed hu)

theorem firstHealth_inv (h : Inv s) {healthy : Bool} (summary : Bytes) (hm : s.main = .reading true healthy) :
    Inv { s.note [.health ⟨healthy, summary⟩] with main := .greet summary } := by
  have hmain := h.agrees.main
  rw [hm] at hmain
  obtain ⟨hgreeting, hfailed⟩ := hmain
  apply h.tells (e := .health ⟨healthy, summary⟩)
  · rfl
  · trivial
  · exact ⟨rfl, rfl, rfl, id⟩
  · exact health_follows h hfailed
  · exact ⟨hgreeting.started, hgreeting.ready, hgreeting.stopping, hgreeting.joined, hgreeting.raised, hgreeting.result⟩
  · exact h.late_le

theorem healthy_inv (h : Inv s) (summary : Bytes) (hm : s.main = .reading false true) :
    Inv { s.note [.health ⟨true, summary⟩] with main := .pet summary } := by
  have hmain := h.agrees.main
  have hlate := h.agrees.late
  rw [hm] at hmain hlate
  obtain ⟨hloop, hfailed⟩ := hmain
  apply h.tells (e := .health ⟨true, summary⟩)
  · rfl
  · trivial
  · exact ⟨rfl, rfl, rfl, id⟩
  · exact health_follows h hfailed
  · exact ⟨⟨hloop.started, hloop.ready, hloop.stopping, hloop.joined, hloop.raised, hloop.result⟩, rfl⟩
  · exact hlate

/-- The loop asks itself to stop, with a result of one. -/
theorem unhealthy_inv (h : Inv s) (summary : Bytes) (hm : s.main = .reading false false) :
    Inv { s.note [.health ⟨false, summary⟩] with main := .poll, result := 1, stop := true } := by
  have hmain := h.agrees.main
  rw [hm] at hmain
  obtain ⟨hloop, hfailed⟩ := hmain
  apply h.tells (e := .health ⟨false, summary⟩)
  · rfl
  · trivial
  · exact ⟨rfl, rfl, rfl, fun _ => rfl⟩
  · exact health_follows h hfailed
  · exact ⟨hloop.started, hloop.ready, hloop.stopping, hloop.joined, hloop.raised, .inr ⟨rfl, rfl, hfailed rfl⟩⟩
  · exact h.late_le

theorem greet_inv (h : Inv s) {summary : Bytes} (hm : s.main = .greet summary) :
    Inv { s.note [.notice (.ready summary)] with main := .greeted } := by
  have hmain := h.agrees.main
  rw [hm] at hmain
  apply h.tells (e := .notice (.ready summary))
  · rfl
  · exact ⟨hmain.started, hmain.ready, hmain.stopping⟩
  · exact ⟨rfl, rfl, rfl, id⟩
  · exact ⟨rfl, rfl, fun hj => .inl hj, fun hu => .inl hu, h.agrees.early⟩
  · exact ⟨hmain.started, rfl, hmain.stopping, hmain.joined, hmain.raised, .inl hmain.result⟩
  · exact h.late_le

theorem greeted_inv (h : Inv s) (hm : s.main = .greeted) : Inv { s.note [readyLine] with main := .poll } := by
  have hmain := h.agrees.main
  rw [hm] at hmain
  apply h.logs
  · rfl
  · exact ⟨rfl, rfl, rfl, id⟩
  · exact hmain.of_stop rfl id
  · rfl

/-- The loop ends when it sees a request to stop. -/
theorem poll_inv (h : Inv s) (hm : s.main = .poll) :
    Inv { s with main := if s.stop then .stopping else .wait } := by
  have hmain := h.agrees.main
  rw [hm] at hmain
  cases hstop : s.stop with
  | true =>
    apply h.moves
    · rfl
    · exact ⟨rfl, rfl, rfl, by simp [hstop]⟩
    · refine ⟨hmain.stopping, hmain.joined, ?_, ?_, ?_, ?_⟩
      · show s.result ≤ 1
        rcases hmain.result with hzero | ⟨hone, -⟩
        · omega
        · omega
      · exact fun _ => ⟨hmain.started, hmain.raised⟩
      · intro hone
        rcases hmain.result with hzero | ⟨-, -, hfailed⟩
        · rw [show s.result = 1 from hone] at hzero
          cases hzero
        · exact .inr (.inr hfailed)
      · exact fun _ _ => rfl
    · exact .inl (Nat.zero_le _)
  | false =>
    apply h.moves
    · rfl
    · exact ⟨rfl, rfl, rfl, by simp [hstop]⟩
    · exact hmain.of_stop rfl (by simp [hstop])
    · exact .inl (Nat.zero_le _)

theorem reload_inv (h : Inv s) (hm : s.main = .exchange) :
    Inv { s.note [.reloaded] with main := .reloaded, reload := false } := by
  have hmain := h.agrees.main
  rw [hm] at hmain
  apply h.tells (e := .reloaded)
  · rfl
  · exact ⟨hmain.ready, hmain.stopping⟩
  · exact ⟨rfl, rfl, rfl, id⟩
  · exact ⟨rfl, rfl, fun hj => .inl hj, fun hu => .inl hu, h.agrees.early⟩
  · exact hmain.of_stop rfl id
  · exact h.late_le

theorem exchange_inv (h : Inv s) (hm : s.main = .exchange) : Inv { s with main := .check } := by
  have hmain := h.agrees.main
  rw [hm] at hmain
  apply h.moves
  · rfl
  · exact ⟨rfl, rfl, rfl, id⟩
  · exact hmain.of_stop rfl id
  · exact .inl (Nat.zero_le _)

theorem reloaded_inv (h : Inv s) (hm : s.main = .reloaded) : Inv { s.note [reloadedLine] with main := .check } := by
  have hmain := h.agrees.main
  rw [hm] at hmain
  apply h.logs
  · rfl
  · exact ⟨rfl, rfl, rfl, id⟩
  · exact hmain.of_stop rfl id
  · rfl

theorem check_inv (h : Inv s) (hm : s.main = .check) : Inv { s with main := .reading false (!s.failed) } := by
  have hmain := h.agrees.main
  rw [hm] at hmain
  apply h.moves
  · rfl
  · exact ⟨rfl, rfl, rfl, id⟩
  · exact ⟨hmain.of_stop rfl id, h.read_failed⟩
  · cases hfailed : s.failed with
    | true => exact .inl (Nat.zero_le _)
    | false => exact .inr (h.agrees.failed.symm.trans hfailed)

/-- The watchdog is told once more at most after the worker failed: `petting` counts it beforehand. -/
theorem pet_inv (h : Inv s) {summary : Bytes} (hm : s.main = .pet summary) :
    Inv { s.note [.notice (.watchdog summary)] with main := .poll } := by
  have hmain := h.agrees.main
  have hlate := h.agrees.late
  rw [hm] at hmain hlate
  obtain ⟨hloop, hlast⟩ := hmain
  apply h.tells (e := .notice (.watchdog summary))
  · rfl
  · exact ⟨hloop.ready, hloop.stopping, hlast⟩
  · exact ⟨rfl, rfl, rfl, id⟩
  · refine ⟨rfl, rfl, fun hj => .inl hj, fun hu => .inl hu, ?_⟩
    intro hfailed
    have hf : (seen s.history).failed = false := hfailed
    simp only [Seen.add, hf]
    exact h.agrees.early hf
  · exact ⟨hloop.started, hloop.ready, hloop.stopping, hloop.joined, hloop.raised, hloop.result⟩
  · have hone : (seen s.history).late + 1 ≤ 1 := hlate
    simp only [Seen.add, Main.petting]
    split
    · omega
    · omega

theorem caught_inv (h : Inv s) {what : Option Bytes} (hm : s.main = .caught what) :
    Inv { s.note [failedLine what] with main := .stopping, result := 1 } := by
  have hmain := h.agrees.main
  rw [hm] at hmain
  obtain ⟨hstopping, hjoined, hraised⟩ := hmain
  apply h.logs
  · rfl
  · exact ⟨rfl, rfl, rfl, id⟩
  · refine ⟨hstopping, hjoined, le_rfl, ?_, fun _ => .inr (.inl hraised), ?_⟩
    · intro hzero
      cases hzero
    · intro _ hquiet
      rw [hraised] at hquiet
      cases hquiet
  · rfl

/-- Only a service that started waits for a worker. -/
theorem stopping_inv (h : Inv s) (hm : s.main = .stopping) :
    Inv { s.note [.notice .stopping] with main := if s.started then .join else .close } := by
  have hmain := h.agrees.main
  rw [hm] at hmain
  obtain ⟨hstopping, hjoined, hverdict⟩ := hmain
  apply h.tells (e := .notice .stopping)
  · rfl
  · exact hstopping
  · exact ⟨rfl, rfl, rfl, id⟩
  · exact ⟨rfl, rfl, fun hj => .inl hj, fun hu => .inl hu, h.agrees.early⟩
  · cases hstarted : s.started with
    | true =>
      have hbegun : (seen s.history).started = true := h.agrees.started.symm.trans hstarted
      exact ⟨hbegun, rfl, hjoined, hverdict.bound, hverdict.good, hverdict.bad, hverdict.asked⟩
    | false =>
      refine ⟨?_, hverdict.bound, hverdict.good, hverdict.bad, hverdict.asked⟩
      exact hjoined.trans (hstarted.symm.trans h.agrees.started)
  · cases s.started with
    | true => exact h.late_le
    | false => exact h.late_le

theorem join_inv (h : Inv s) (hm : s.main = .join) (hdone : s.worker = .done) :
    Inv { s.note [.joined] with main := .close } := by
  have hmain := h.agrees.main
  rw [hm] at hmain
  obtain ⟨hstarted, hstopping, hjoined, hverdict⟩ := hmain
  apply h.tells (e := .joined)
  · rfl
  · exact ⟨hstarted, hstopping, hjoined⟩
  · exact ⟨rfl, rfl, rfl, id⟩
  · exact ⟨rfl, rfl, fun _ => .inr hdone, fun hu => .inl hu, h.agrees.early⟩
  · exact ⟨hstarted.symm, hverdict.bound, hverdict.good, hverdict.bad, hverdict.asked⟩
  · exact h.late_le

theorem close_inv (h : Inv s) (hm : s.main = .close) : Inv { s.note [stoppedLine] with main := .ended } := by
  have hmain := h.agrees.main
  rw [hm] at hmain
  apply h.logs
  · rfl
  · exact ⟨rfl, rfl, rfl, id⟩
  · exact ⟨hmain.1, hmain.2.bound, hmain.2.good, hmain.2.bad, hmain.2.asked⟩
  · rfl

/-- The code of a result and of a flag. -/
theorem Verdict.code {v : Seen} (h : Verdict s v) (hfailed : s.failed = v.failed) :
    (if s.failed then 1 else s.result) = 0 ↔ v.started = true ∧ v.raised = false ∧ v.failed = false := by
  cases hf : s.failed with
  | true =>
    rw [← hfailed, hf]
    simp
  | false =>
    rw [← hfailed, hf]
    simp only [Bool.false_eq_true, if_false, and_true]
    constructor
    · exact h.good
    · rintro ⟨hstarted, hraised⟩
      rcases Nat.le_one_iff_eq_zero_or_eq_one.mp h.bound with hzero | hone
      · exact hzero
      · rcases h.bad hone with hb | hb | hb
        · rw [hstarted] at hb
          cases hb
        · rw [hraised] at hb
          cases hb
        · rw [← hfailed, hf] at hb
          cases hb

theorem ended_inv (h : Inv s) (hm : s.main = .ended) :
    Inv { s with main := .returned (if s.failed then 1 else s.result) } := by
  have hmain := h.agrees.main
  rw [hm] at hmain
  apply h.moves
  · rfl
  · exact ⟨rfl, rfl, rfl, id⟩
  · exact ⟨hmain.1, hmain.2.code h.agrees.failed⟩
  · exact .inl (Nat.zero_le _)

theorem stepMain_inv (h : Inv s) (hs : stepMain s = some s') : Inv s' := by
  unfold stepMain at hs
  cases hm : s.main with
  | block =>
    rw [hm] at hs
    cases hs
    exact block_inv h hm
  | start =>
    rw [hm] at hs
    cases hs
    exact start_inv h hm
  | announce =>
    rw [hm] at hs
    cases hs
    exact announce_inv h hm
  | reading greeting healthy =>
    rw [hm] at hs
    cases greeting with
    | true =>
      cases hs
      exact firstHealth_inv h _ hm
    | false =>
      cases healthy with
      | true =>
        cases hs
        exact healthy_inv h _ hm
      | false =>
        cases hs
        exact unhealthy_inv h _ hm
  | greet summary =>
    rw [hm] at hs
    cases hs
    exact greet_inv h hm
  | greeted =>
    rw [hm] at hs
    cases hs
    exact greeted_inv h hm
  | poll =>
    rw [hm] at hs
    cases hs
    exact poll_inv h hm
  | wait =>
    rw [hm] at hs
    cases hs
  | exchange =>
    rw [hm] at hs
    dsimp only at hs
    by_cases hreload : s.reload = true
    · rw [if_pos hreload] at hs
      cases hs
      exact reload_inv h hm
    · rw [if_neg hreload] at hs
      cases hs
      exact exchange_inv h hm
  | reloaded =>
    rw [hm] at hs
    cases hs
    exact reloaded_inv h hm
  | check =>
    rw [hm] at hs
    cases hs
    exact check_inv h hm
  | pet summary =>
    rw [hm] at hs
    cases hs
    exact pet_inv h hm
  | caught what =>
    rw [hm] at hs
    cases hs
    exact caught_inv h hm
  | stopping =>
    rw [hm] at hs
    cases hs
    exact stopping_inv h hm
  | join =>
    rw [hm] at hs
    by_cases hdone : s.worker = .done
    · simp only [hdone, if_true] at hs
      cases hs
      exact join_inv h hm hdone
    · simp only [hdone, if_false] at hs
      cases hs
  | close =>
    rw [hm] at hs
    cases hs
    exact close_inv h hm
  | ended =>
    rw [hm] at hs
    cases hs
    exact ended_inv h hm
  | returned code =>
    rw [hm] at hs
    cases hs

/-! ### The worker -/

/-- What an event of the worker may change in what is seen. -/
structure Beside (v v' : Seen) : Prop where
  started : v'.started = v.started
  ready : v'.ready = v.ready
  stopping : v'.stopping = v.stopping
  joined : v'.joined = v.joined
  raised : v'.raised = v.raised
  unhealthy : v'.unhealthy = v.unhealthy
  last : v'.last = v.last
  late : v'.late = v.late
  failed : v.failed = true → v'.failed = true

theorem Beside.refl (v : Seen) : Beside v v := ⟨rfl, rfl, rfl, rfl, rfl, rfl, rfl, rfl, id⟩

theorem Looping.beside {v v' : Seen} (h : Looping s v) (hv : Beside v v') (hresult : s'.result = s.result)
    (hstop : s.stop = true → s'.stop = true) : Looping s' v' := by
  refine ⟨hv.started.trans h.started, hv.ready.trans h.ready, hv.stopping.trans h.stopping,
    hv.joined.trans h.joined, hv.raised.trans h.raised, ?_⟩
  rw [hresult]
  rcases h.result with hzero | ⟨hone, hs, hfailed⟩
  · exact .inl hzero
  · exact .inr ⟨hone, hstop hs, hv.failed hfailed⟩

theorem Greeting.beside {v v' : Seen} (h : Greeting s v) (hv : Beside v v') (hresult : s'.result = s.result) :
    Greeting s' v' :=
  ⟨hv.started.trans h.started, hv.ready.trans h.ready, hv.stopping.trans h.stopping, hv.joined.trans h.joined,
    hv.raised.trans h.raised, hresult.trans h.result⟩

theorem Verdict.beside {v v' : Seen} (h : Verdict s v) (hv : Beside v v') (hresult : s'.result = s.result)
    (hstop : s.stop = true → s'.stop = true) : Verdict s' v' := by
  refine ⟨hresult ▸ h.bound, ?_, ?_, ?_⟩
  · rw [hresult, hv.started, hv.raised]
    exact h.good
  · rw [hresult, hv.started, hv.raised]
    intro hone
    rcases h.bad hone with hb | hb | hb
    · exact .inl hb
    · exact .inr (.inl hb)
    · exact .inr (.inr (hv.failed hb))
  · rw [hv.started, hv.raised]
    exact fun hstarted hraised => hstop (h.asked hstarted hraised)

/-- A worker at work: the service has started and has not waited for the worker. -/
theorem Agrees.working {v : Seen} (h : Agrees s v) (habsent : s.worker ≠ .absent) (hdone : s.worker ≠ .done) :
    v.started = true ∧ v.joined = false := by
  constructor
  · cases hstarted : v.started with
    | true => rfl
    | false => exact absurd (h.absent.mpr hstarted) habsent
  · cases hjoined : v.joined with
    | true => exact absurd (h.joined hjoined) hdone
    | false => rfl

theorem MainAgrees.beside {v v' : Seen} {m : Main} (h : MainAgrees s v m) (hv : Beside v v')
    (hresult : s'.result = s.result) (hstop : s.stop = true → s'.stop = true) (hstarted : v.started = true)
    (hjoined : v.joined = false) : MainAgrees s' v' m := by
  have hclosed : v.joined ≠ v.started := by
    rw [hjoined, hstarted]
    simp
  have hempty : v ≠ {} := by
    intro he
    rw [he] at hstarted
    cases hstarted
  cases m with
  | block => exact absurd h.1 hempty
  | start => exact absurd h.1 hempty
  | announce => exact Greeting.beside h hv hresult
  | reading greeting healthy =>
    cases greeting with
    | true => exact ⟨h.1.beside hv hresult, fun hh => hv.failed (h.2 hh)⟩
    | false => exact ⟨h.1.beside hv hresult hstop, fun hh => hv.failed (h.2 hh)⟩
  | greet summary => exact Greeting.beside h hv hresult
  | greeted => exact Looping.beside h hv hresult hstop
  | poll => exact Looping.beside h hv hresult hstop
  | wait => exact Looping.beside h hv hresult hstop
  | exchange => exact Looping.beside h hv hresult hstop
  | reloaded => exact Looping.beside h hv hresult hstop
  | check => exact Looping.beside h hv hresult hstop
  | pet summary => exact ⟨h.1.beside hv hresult hstop, hv.last.trans h.2⟩
  | caught what => exact ⟨hv.stopping.trans h.1, hv.joined.trans h.2.1, hv.raised.trans h.2.2⟩
  | stopping => exact ⟨hv.stopping.trans h.1, hv.joined.trans h.2.1, h.2.2.beside hv hresult hstop⟩
  | join =>
    exact ⟨hv.started.trans h.1, hv.stopping.trans h.2.1, hv.joined.trans h.2.2.1, h.2.2.2.beside hv hresult hstop⟩
  | close => exact absurd h.1 hclosed
  | ended => exact absurd h.1 hclosed
  | returned code => exact absurd h.1 hclosed

/-- The worker goes on. -/
theorem Agrees.work {v v' : Seen} (h : Agrees s v) (habsent : s.worker ≠ .absent) (hdone : s.worker ≠ .done)
    (hv : Beside v v') (hmain : s'.main = s.main) (hresult : s'.result = s.result) (hstarted : s'.started = s.started)
    (habsent' : s'.worker ≠ .absent) (hfailed : s'.failed = v'.failed)
    (hmarked : v'.failed = true → s'.worker = .ask ∨ s'.worker = .done)
    (hfinished : s'.worker = .done → s'.stop = true) (hstop : s.stop = true → s'.stop = true) : Agrees s' v' := by
  obtain ⟨hbegun, hopen⟩ := h.working habsent hdone
  refine ⟨?_, ?_, ?_, hfailed, hmarked, hfinished, ?_, ?_, ?_, ?_⟩
  · rw [hmain]
    exact h.main.beside hv hresult hstop hbegun hopen
  · rw [hstarted, hv.started]
    exact h.started
  · rw [hv.started, hbegun]
    simp [habsent']
  · rw [hv.joined, hopen]
    simp
  · rw [hv.unhealthy]
    exact fun hu => hv.failed (h.unhealthy hu)
  · rw [hv.late, hmain]
    exact h.late
  · rw [hv.late]
    intro hf
    apply h.early
    cases hfv : v.failed with
    | true =>
      rw [hv.failed hfv] at hf
      cases hf
    | false => rfl

/-- The mark is set once, by the worker that then ends. -/
theorem Agrees.unmarked {v : Seen} (h : Agrees s v) (hask : s.worker ≠ .ask) (hdone : s.worker ≠ .done) :
    v.failed = false := by
  cases hf : v.failed with
  | true =>
    rcases h.marked hf with hw | hw
    · exact absurd hw hask
    · exact absurd hw hdone
  | false => rfl

/-- A step of the worker that leaves the flags alone. -/
theorem Inv.work (h : Inv s) (habsent : s.worker ≠ .absent) (hask : s.worker ≠ .ask) (hdone : s.worker ≠ .done)
    {worker : Worker} (habsent' : worker ≠ .absent) (hfinished : worker = .done → s.stop = true) :
    Inv { s with worker := worker } := by
  have ha := h.agrees
  have hunmarked := ha.unmarked hask hdone
  apply h.silent
  · rfl
  · apply ha.work habsent hdone (Beside.refl _)
    · rfl
    · rfl
    · rfl
    · exact habsent'
    · exact ha.failed
    · intro hf
      rw [hunmarked] at hf
      cases hf
    · exact hfinished
    · exact id

/-- The same with a call of the Backend or a line of the log. -/
theorem Inv.workWith (h : Inv s) (habsent : s.worker ≠ .absent) (hask : s.worker ≠ .ask) (hdone : s.worker ≠ .done)
    {worker : Worker} (habsent' : worker ≠ .absent) (hdone' : worker ≠ .done) {e : Event}
    (he : (seen s.history).add e = seen s.history)
    (hallowed : (seen s.history).started = true → (seen s.history).joined = false → allowed (seen s.history) e) :
    Inv { s.note [e] with worker := worker } := by
  have ha := h.agrees
  have hunmarked := ha.unmarked hask hdone
  obtain ⟨hstarted, hjoined⟩ := ha.working habsent hdone
  apply h.noted e rfl (hallowed hstarted hjoined)
  rw [he]
  apply ha.work habsent hdone (Beside.refl _)
  · rfl
  · rfl
  · rfl
  · exact habsent'
  · exact ha.failed
  · intro hf
    rw [hunmarked] at hf
    cases hf
  · exact fun hw => absurd hw hdone'
  · exact id

theorem stepWorker_inv (h : Inv s) (hs : stepWorker s = some s') : Inv s' := by
  have ha := h.agrees
  unfold stepWorker at hs
  cases hw : s.worker with
  | absent =>
    rw [hw] at hs
    cases hs
  | poll =>
    rw [hw] at hs
    cases hs
    apply h.work
    · simp [hw]
    · simp [hw]
    · simp [hw]
    · split <;> simp
    · intro hdone
      by_contra hstop
      simp [hstop] at hdone
  | tick =>
    rw [hw] at hs
    cases hs
    apply h.workWith (by simp [hw]) (by simp [hw]) (by simp [hw]) (by simp) (by simp) rfl
    exact fun hstarted hjoined => ⟨hstarted, hjoined⟩
  | process =>
    rw [hw] at hs
    cases hs
    exact h.work (by simp [hw]) (by simp [hw]) (by simp [hw]) (by simp) (by simp)
  | wait =>
    rw [hw] at hs
    cases hs
    exact h.work (by simp [hw]) (by simp [hw]) (by simp [hw]) (by simp) (by simp)
  | failing what =>
    rw [hw] at hs
    cases hs
    exact h.workWith (by simp [hw]) (by simp [hw]) (by simp [hw]) (by simp) (by simp) rfl fun _ _ => trivial
  | mark =>
    rw [hw] at hs
    cases hs
    have hunmarked := ha.unmarked (by simp [hw]) (by simp [hw])
    obtain ⟨hstarted, hjoined⟩ := ha.working (by simp [hw]) (by simp [hw])
    apply h.noted .workerFailed rfl ⟨hstarted, hjoined, hunmarked⟩
    apply ha.work
    · simp [hw]
    · simp [hw]
    · exact ⟨rfl, rfl, rfl, rfl, rfl, rfl, rfl, rfl, fun _ => rfl⟩
    · rfl
    · rfl
    · rfl
    · simp
    · rfl
    · exact fun _ => .inl rfl
    · simp
    · exact id
  | ask =>
    rw [hw] at hs
    cases hs
    apply h.silent
    · rfl
    apply ha.work
    · simp [hw]
    · simp [hw]
    · exact Beside.refl _
    · rfl
    · rfl
    · rfl
    · simp
    · exact ha.failed
    · exact fun _ => .inr rfl
    · exact fun _ => rfl
    · exact fun _ => rfl
  | done =>
    rw [hw] at hs
    cases hs

theorem stepFail_inv (h : Inv s) {what : Bytes} (hs : stepFail s what = some s') : Inv s' := by
  unfold stepFail at hs
  cases hw : s.worker with
  | tick =>
    rw [hw] at hs
    cases hs
    apply h.workWith (by simp [hw]) (by simp [hw]) (by simp [hw]) (by simp) (by simp) rfl
    exact fun hstarted hjoined => ⟨hstarted, hjoined⟩
  | process =>
    rw [hw] at hs
    cases hs
    exact h.work (by simp [hw]) (by simp [hw]) (by simp [hw]) (by simp) (by simp)
  | _ =>
    rw [hw] at hs
    cases hs

theorem stepServe_inv (h : Inv s) (hs : stepServe s = some s') : Inv s' := by
  unfold stepServe at hs
  cases hw : s.worker with
  | process =>
    rw [hw] at hs
    cases hs
    apply h.workWith (by simp [hw]) (by simp [hw]) (by simp [hw]) (by simp) (by simp) rfl
    exact fun hstarted hjoined => ⟨hstarted, hjoined⟩
  | _ =>
    rw [hw] at hs
    cases hs

/-! ### All orders of steps -/

theorem step_inv (h : Inv s) {m : Move} (hs : step s m = some s') : Inv s' := by
  cases m with
  | main => exact stepMain_inv h hs
  | signal signal => exact stepSignal_inv h hs
  | raise what => exact stepRaise_inv h hs
  | worker => exact stepWorker_inv h hs
  | fail what => exact stepFail_inv h hs
  | serve => exact stepServe_inv h hs

theorem reachable_inv (h : Reachable s) : Inv s :=
  path_keeps (fun _ _ hstep hi => by
    obtain ⟨m, hm⟩ := hstep
    exact step_inv hi hm) h Inv.initial

theorem run_reachable (h : Reachable s) {moves : List Move} (hrun : run s moves = some s') : Reachable s' := by
  induction moves generalizing s with
  | nil =>
    cases hrun
    exact h
  | cons m moves ih =>
    simp only [run, Option.bind_eq_some_iff] at hrun
    obtain ⟨s₁, hstep, hrest⟩ := hrun
    exact ih (h.tail ⟨m, hstep⟩) hrest

/-- What the service tells systemd and asks of the Backend, in any order of the steps of its threads;
a worker that failed is covered by one watchdog message more at most. -/
theorem history_licensed (h : Reachable s) :
    Session.Licensed licence s.history ∧ (seen s.history).late ≤ 1 := by
  have hi := reachable_inv h
  constructor
  · exact hi.licensed
  · exact Nat.le_of_add_right_le hi.agrees.late

/-- The worker fails as the main thread has read the flag and is about to pet the watchdog. -/
def lateMoves : List Move :=
  [.main, .main, .main, .main, .main, .main, .main, .signal .quiet, .main, .main, .worker, .fail (ascii "x"), .worker,
    .worker, .main, .main]

theorem history_licensed_late : ∃ s, run {} lateMoves = some s ∧
    (Session.Licensed licence s.history ∧ (seen s.history).late ≤ 1) ∧ (seen s.history).late = 1 := by
  have hrun : (run {} lateMoves).isSome = true := by decide
  obtain ⟨s, hs⟩ := Option.isSome_iff_exists.mp hrun
  refine ⟨s, hs, history_licensed (run_reachable .refl hs), ?_⟩
  have hlate : (run {} lateMoves).map (fun s => (seen s.history).late) = some 1 := by decide
  rw [hs] at hlate
  exact Option.some.inj hlate

/-- The exit code of the process: it is zero if the service started, nothing was thrown and the worker
did not fail, and then the worker has ended. -/
theorem exit_code (h : Reachable s) {code : ℕ} (hcode : s.main = .returned code) :
    (code = 0 ↔ (seen s.history).started = true ∧ (seen s.history).raised = false ∧ (seen s.history).failed = false) ∧
      (s.worker = .absent ∨ s.worker = .done) := by
  have ha := (reachable_inv h).agrees
  have hmain := ha.main
  rw [hcode] at hmain
  obtain ⟨hjoined, hzero⟩ := hmain
  constructor
  · exact hzero
  · cases hstarted : (seen s.history).started with
    | false => exact .inl (ha.absent.mpr hstarted)
    | true => exact .inr (ha.joined (hjoined.trans hstarted))

/-- A worker that fails before the greeting is read as ready. -/
def failedMoves : List Move :=
  [.main, .main, .worker, .fail (ascii "x"), .worker, .worker, .worker, .main, .main, .main, .main, .main, .main, .main,
    .main, .main]

theorem exit_code_failed : ∃ s, run {} failedMoves = some s ∧ s.main = .returned 1 ∧
    (1 = 0 ↔ (seen s.history).started = true ∧ (seen s.history).raised = false ∧ (seen s.history).failed = false) ∧
    (s.worker = .absent ∨ s.worker = .done) := by
  have hrun : (run {} failedMoves).isSome = true := by decide
  obtain ⟨s, hs⟩ := Option.isSome_iff_exists.mp hrun
  have hmain : (run {} failedMoves).map State.main = some (.returned 1) := by decide
  rw [hs] at hmain
  have hreturned : s.main = .returned 1 := Option.some.inj hmain
  exact ⟨s, hs, hreturned, exit_code (run_reachable .refl hs) hreturned⟩

/-! ### The end -/

def Main.rank : Main → ℕ
  | .block | .wait => 12
  | .start | .exchange => 11
  | .announce | .reloaded => 10
  | .check => 9
  | .reading .. => 8
  | .greet _ => 7
  | .greeted | .pet _ => 6
  | .poll | .caught _ => 5
  | .stopping => 4
  | .join => 3
  | .close => 2
  | .ended => 1
  | .returned _ => 0

def Worker.rank : Worker → ℕ
  | .absent => 1
  | .tick => 5
  | .process => 4
  | .failing _ => 3
  | .wait | .mark => 2
  | .poll | .ask => 1
  | .done => 0

/-- How many steps may still follow a stop request. -/
def State.rank (s : State) : ℕ := s.main.rank + s.worker.rank

theorem rank_le (s : State) : s.rank ≤ 20 := by
  have hmain : s.main.rank ≤ 12 := by
    cases s.main <;> simp [Main.rank]
  have hworker : s.worker.rank ≤ 5 := by
    cases s.worker <;> simp [Worker.rank]
  unfold State.rank
  omega

/-- A step of the main thread, the start apart, brings it nearer to its end. -/
theorem stepMain_rank (hm : s.main ≠ .start) (hstop : s.stop = true) (hs : stepMain s = some s') :
    s'.stop = true ∧ s'.worker = s.worker ∧ s'.main.rank < s.main.rank := by
  unfold stepMain at hs
  cases hmain : s.main with
  | start => exact absurd hmain hm
  | reading greeting healthy =>
    rw [hmain] at hs
    cases greeting with
    | true =>
      cases hs
      exact ⟨hstop, rfl, by simp [Main.rank]⟩
    | false =>
      cases healthy with
      | true =>
        cases hs
        exact ⟨hstop, rfl, by simp [Main.rank]⟩
      | false =>
        cases hs
        exact ⟨rfl, rfl, by simp [Main.rank]⟩
  | poll =>
    rw [hmain] at hs
    cases hs
    exact ⟨hstop, rfl, by simp [hstop, Main.rank]⟩
  | exchange =>
    rw [hmain] at hs
    cases hreload : s.reload with
    | true =>
      simp only [hreload, if_true] at hs
      cases hs
      exact ⟨hstop, rfl, by simp [Main.rank]⟩
    | false =>
      simp only [hreload] at hs
      cases hs
      exact ⟨hstop, rfl, by simp [Main.rank]⟩
  | stopping =>
    rw [hmain] at hs
    cases hs
    refine ⟨hstop, rfl, ?_⟩
    cases hstarted : s.started with
    | true => simp [Main.rank]
    | false => simp [Main.rank]
  | join =>
    rw [hmain] at hs
    by_cases hdone : s.worker = .done
    · simp only [hdone, if_true] at hs
      cases hs
      exact ⟨hstop, rfl, by simp [Main.rank]⟩
    · simp only [hdone, if_false] at hs
      cases hs
  | _ =>
    rw [hmain] at hs
    cases hs <;> exact ⟨hstop, rfl, by simp [Main.rank]⟩

theorem start_rank (h : Inv s) (hm : s.main = .start) (hstop : s.stop = true) (hs : stepMain s = some s') :
    s'.stop = true ∧ s'.rank < s.rank := by
  have hmain := h.agrees.main
  rw [hm] at hmain
  have habsent : s.worker = .absent := by
    apply h.agrees.absent.mpr
    rw [hmain.1]
  unfold stepMain at hs
  rw [hm] at hs
  cases hs
  exact ⟨hstop, by simp [State.rank, hm, habsent, Main.rank, Worker.rank]⟩

theorem stepSignal_rank {signal : Signal} (hstop : s.stop = true) (hs : stepSignal s signal = some s') :
    s'.stop = true ∧ s'.worker = s.worker ∧ s'.main.rank < s.main.rank := by
  unfold stepSignal at hs
  split at hs
  · rename_i hwait
    cases hs
    exact ⟨rfl, rfl, by simp [hwait, Main.rank]⟩
  · rename_i hwait
    cases hs
    exact ⟨rfl, rfl, by simp [hwait, Main.rank]⟩
  · rename_i hwait
    cases hs
    exact ⟨hstop, rfl, by simp [hwait, Main.rank]⟩
  · rename_i hwait
    cases hs
    exact ⟨hstop, rfl, by simp [hwait, Main.rank]⟩
  · cases hs

theorem stepRaise_rank {what : Option Bytes} (hstop : s.stop = true) (hs : stepRaise s what = some s') :
    s'.stop = true ∧ s'.worker = s.worker ∧ s'.main.rank < s.main.rank := by
  unfold stepRaise at hs
  split at hs
  · rename_i hblock
    cases hs
    exact ⟨hstop, rfl, by simp [hblock, Main.rank]⟩
  · split at hs
    · rename_i hthrows
      cases hs
      refine ⟨hstop, rfl, ?_⟩
      cases hmain : s.main <;> simp_all [Main.throws, Main.rank]
    · cases hs

/-- A worker that sees the request ends; one that is at work is nearer to its next look. -/
theorem worker_rank {m : Move} (hm : m = .worker ∨ m = .serve ∨ ∃ what, m = .fail what) (hstop : s.stop = true)
    (hs : step s m = some s') : s'.stop = true ∧ s'.main = s.main ∧ s'.worker.rank < s.worker.rank := by
  rcases hm with rfl | rfl | ⟨what, rfl⟩
  · have hstep : stepWorker s = some s' := hs
    unfold stepWorker at hstep
    cases hw : s.worker with
    | poll =>
      rw [hw] at hstep
      cases hstep
      exact ⟨hstop, rfl, by simp [hstop, Worker.rank]⟩
    | ask =>
      rw [hw] at hstep
      cases hstep
      exact ⟨rfl, rfl, by simp [Worker.rank]⟩
    | _ =>
      rw [hw] at hstep
      cases hstep <;> exact ⟨hstop, rfl, by simp [Worker.rank]⟩
  · have hstep : stepServe s = some s' := hs
    unfold stepServe at hstep
    split at hstep
    · rename_i hw
      cases hstep
      exact ⟨hstop, rfl, by simp [hw, Worker.rank]⟩
    · cases hstep
  · have hstep : stepFail s what = some s' := hs
    unfold stepFail at hstep
    split at hstep
    · rename_i hw
      cases hstep
      exact ⟨hstop, rfl, by simp [hw, Worker.rank]⟩
    · rename_i hw
      cases hstep
      exact ⟨hstop, rfl, by simp [hw, Worker.rank]⟩
    · cases hstep

/-- Once the stop flag is set, every step of either thread counts. -/
theorem step_rank (h : Inv s) (hstop : s.stop = true) {m : Move} (hs : step s m = some s') :
    s'.stop = true ∧ s'.rank < s.rank := by
  have hthread : s'.stop = true ∧ s'.worker = s.worker ∧ s'.main.rank < s.main.rank →
      s'.stop = true ∧ s'.rank < s.rank := by
    intro hmove
    obtain ⟨hstop', hworker, hrank⟩ := hmove
    refine ⟨hstop', ?_⟩
    simp only [State.rank, hworker]
    omega
  have hbeside : s'.stop = true ∧ s'.main = s.main ∧ s'.worker.rank < s.worker.rank →
      s'.stop = true ∧ s'.rank < s.rank := by
    intro hmove
    obtain ⟨hstop', hmain, hrank⟩ := hmove
    refine ⟨hstop', ?_⟩
    simp only [State.rank, hmain]
    omega
  cases m with
  | main =>
    by_cases hm : s.main = .start
    · exact start_rank h hm hstop hs
    · exact hthread (stepMain_rank hm hstop hs)
  | signal signal => exact hthread (stepSignal_rank hstop hs)
  | raise what => exact hthread (stepRaise_rank hstop hs)
  | worker => exact hbeside (worker_rank (.inl rfl) hstop hs)
  | fail what => exact hbeside (worker_rank (.inr (.inr ⟨what, rfl⟩)) hstop hs)
  | serve => exact hbeside (worker_rank (.inr (.inl rfl)) hstop hs)

/-- No thread waits for the other for ever: a service that has not returned can go on. -/
theorem can_go_on (h : Inv s) (hopen : ∀ code, s.main ≠ .returned code) : ∃ m s', step s m = some s' := by
  have hmain := h.agrees.main
  cases hm : s.main with
  | returned code => exact absurd hm (hopen code)
  | wait => exact ⟨.signal .quiet, _, by simp [step, stepSignal, hm]; rfl⟩
  | reading greeting healthy =>
    cases greeting with
    | true => exact ⟨.main, _, by simp [step, stepMain, hm]; rfl⟩
    | false =>
      cases healthy with
      | true => exact ⟨.main, _, by simp [step, stepMain, hm]; rfl⟩
      | false => exact ⟨.main, _, by simp [step, stepMain, hm]; rfl⟩
  | exchange =>
    cases hreload : s.reload with
    | true => exact ⟨.main, _, by simp [step, stepMain, hm, hreload]; rfl⟩
    | false => exact ⟨.main, _, by simp [step, stepMain, hm, hreload]; rfl⟩
  | join =>
    rw [hm] at hmain
    cases hw : s.worker with
    | absent =>
      have hstarted := h.agrees.absent.mp hw
      rw [hmain.1] at hstarted
      cases hstarted
    | done => exact ⟨.main, _, by simp [step, stepMain, hm, hw]; rfl⟩
    | _ => exact ⟨.worker, _, by simp [step, stepWorker, hw]; rfl⟩
  | _ => exact ⟨.main, _, by simp [step, stepMain, hm]; rfl⟩

theorem run_rank (h : Inv s) (hstop : s.stop = true) {moves : List Move} (hrun : run s moves = some s') :
    Inv s' ∧ moves.length + s'.rank ≤ s.rank := by
  induction moves generalizing s with
  | nil =>
    cases hrun
    exact ⟨h, by simp⟩
  | cons m moves ih =>
    simp only [run, Option.bind_eq_some_iff] at hrun
    obtain ⟨s₁, hstep, hrest⟩ := hrun
    obtain ⟨hstop₁, hrank⟩ := step_rank h hstop hstep
    obtain ⟨hinv, hle⟩ := ih (step_inv h hstep) hstop₁ hrest
    refine ⟨hinv, ?_⟩
    rw [List.length_cons]
    omega

/-- Once a stop was asked for, in any order of steps and with any exceptions, at most twenty steps are
left, and the service can go on until it has returned. -/
theorem stop_ends (h : Reachable s) (hstop : s.stop = true) {moves : List Move} (hrun : run s moves = some s') :
    moves.length ≤ 20 ∧ ((∃ code, s'.main = .returned code) ∨ ∃ m s'', step s' m = some s'') := by
  obtain ⟨hinv, hlength⟩ := run_rank (reachable_inv h) hstop hrun
  constructor
  · have hle := rank_le s
    omega
  · by_cases hreturned : ∃ code, s'.main = .returned code
    · exact .inl hreturned
    · exact .inr (can_go_on hinv fun code hcode => hreturned ⟨code, hcode⟩)

/-- A TERM while the worker is in its tick. -/
def termMoves : List Move :=
  [.main, .main, .worker, .main, .main, .main, .main, .main, .signal .terminate]

def drainMoves : List Move :=
  [.main, .main, .main, .main, .main, .main, .worker, .serve, .worker, .main, .main, .main]

theorem stop_ends_term : ∃ s s', run {} termMoves = some s ∧ run s drainMoves = some s' ∧
    (drainMoves.length ≤ 20 ∧ ((∃ code, s'.main = .returned code) ∨ ∃ m s'', step s' m = some s'')) ∧
    s'.main = .returned 0 := by
  have hterm : (run {} termMoves).isSome = true := by decide
  obtain ⟨s, hs⟩ := Option.isSome_iff_exists.mp hterm
  have hdrain : ((run {} termMoves).bind fun s => run s drainMoves).isSome = true := by decide
  rw [hs] at hdrain
  obtain ⟨s', hs'⟩ := Option.isSome_iff_exists.mp hdrain
  have hrun : run s drainMoves = some s' := hs'
  have hstop : (run {} termMoves).map State.stop = some true := by decide
  rw [hs] at hstop
  have hend : ((run {} termMoves).bind fun s => (run s drainMoves).map State.main) = some (.returned 0) := by decide
  rw [hs] at hend
  simp only [Option.bind_some, hrun, Option.map_some] at hend
  exact ⟨s, s', hs, hrun, stop_ends (run_reachable .refl hs) (Option.some.inj hstop) hrun, Option.some.inj hend⟩

/-- The worker goes on with its loop. -/
def Worker.busy : Worker → Bool
  | .poll | .tick | .process | .wait => true
  | _ => false

/-- The main thread waits for a worker that nobody told to end. -/
structure Stuck (s : State) : Prop where
  main : s.main = .join
  stop : s.stop = false
  busy : s.worker.busy = true

theorem Stuck.step (h : Stuck s) {m : Move} (hm : ∀ what, m ≠ .fail what) (hs : step s m = some s') : Stuck s' := by
  have hdone : s.worker ≠ .done := by
    intro hdone
    have hbusy := h.busy
    rw [hdone] at hbusy
    cases hbusy
  cases m with
  | main =>
    have hstep : stepMain s = some s' := hs
    unfold stepMain at hstep
    rw [h.main] at hstep
    simp only [hdone, if_false] at hstep
    cases hstep
  | signal signal =>
    have hstep : stepSignal s signal = some s' := hs
    unfold stepSignal at hstep
    rw [h.main] at hstep
    cases signal <;> cases hstep
  | raise what =>
    have hstep : stepRaise s what = some s' := hs
    unfold stepRaise at hstep
    rw [h.main] at hstep
    cases hstep
  | worker =>
    have hstep : stepWorker s = some s' := hs
    have hbusy := h.busy
    unfold stepWorker at hstep
    cases hw : s.worker with
    | poll =>
      rw [hw, h.stop] at hstep
      cases hstep
      exact ⟨h.main, rfl, rfl⟩
    | tick =>
      rw [hw] at hstep
      cases hstep
      exact ⟨h.main, h.stop, rfl⟩
    | process =>
      rw [hw] at hstep
      cases hstep
      exact ⟨h.main, h.stop, rfl⟩
    | wait =>
      rw [hw] at hstep
      cases hstep
      exact ⟨h.main, h.stop, rfl⟩
    | _ =>
      rw [hw] at hbusy
      cases hbusy
  | fail what => exact absurd rfl (hm what)
  | serve =>
    have hstep : stepServe s = some s' := hs
    unfold stepServe at hstep
    split at hstep
    · cases hstep
      exact ⟨h.main, h.stop, rfl⟩
    · cases hstep

/-- The handler of `execute` asks nobody to stop. So the main thread waits for its worker without a
stop request after an exception only, and then for as long as the worker itself does not fail. -/
theorem join_waits (h : Reachable s) (hjoin : s.main = .join) (hstop : s.stop = false) (hbusy : s.worker.busy = true)
    {moves : List Move} (hmoves : ∀ m ∈ moves, ∀ what, m ≠ .fail what) (hrun : run s moves = some s') :
    (seen s.history).raised = true ∧ s'.main = .join := by
  constructor
  · have hmain := (reachable_inv h).agrees.main
    rw [hjoin] at hmain
    obtain ⟨hstarted, -, -, hverdict⟩ := hmain
    by_contra hraised
    have hasked := hverdict.asked hstarted (Bool.eq_false_iff.mpr hraised)
    rw [hstop] at hasked
    cases hasked
  · have hstuck : Stuck s := ⟨hjoin, hstop, hbusy⟩
    have hend : Stuck s' := by
      clear h hjoin hstop hbusy
      induction moves generalizing s with
      | nil =>
        cases hrun
        exact hstuck
      | cons m moves ih =>
        simp only [run, Option.bind_eq_some_iff] at hrun
        obtain ⟨s₁, hstep, hrest⟩ := hrun
        have hnext := hstuck.step (hmoves m (List.mem_cons_self ..)) hstep
        exact ih (fun x hx => hmoves x (List.mem_cons_of_mem _ hx)) hrest hnext
    exact hend.main

/-- `sigtimedwait` fails. -/
def raisedMoves : List Move :=
  [.main, .main, .main, .main, .main, .main, .main, .raise (some (ascii "sigtimedwait failed: x")), .main, .main]

def servedMoves : List Move :=
  [.worker, .worker, .serve, .worker, .worker, .worker, .worker]

theorem join_waits_served : ∃ s s', run {} raisedMoves = some s ∧ run s servedMoves = some s' ∧
    (seen s.history).raised = true ∧ s'.main = .join := by
  have hraised : (run {} raisedMoves).isSome = true := by decide
  obtain ⟨s, hs⟩ := Option.isSome_iff_exists.mp hraised
  have hserved : ((run {} raisedMoves).bind fun s => run s servedMoves).isSome = true := by decide
  rw [hs] at hserved
  obtain ⟨s', hs'⟩ := Option.isSome_iff_exists.mp hserved
  have hstate : (run {} raisedMoves).map (fun s => (s.main, s.stop, s.worker.busy)) = some (.join, false, true) := by decide
  rw [hs] at hstate
  have hfacts := Option.some.inj hstate
  simp only [Prod.mk.injEq] at hfacts
  obtain ⟨hjoin, hstop, hbusy⟩ := hfacts
  refine ⟨s, s', hs, hs', join_waits (run_reachable .refl hs) hjoin hstop hbusy ?_ hs'⟩
  intro m hm what hfail
  rw [hfail] at hm
  simp [servedMoves] at hm

end Monutchee.Service.Lifecycle
