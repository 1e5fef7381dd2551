import Monutchee.System.Backend

/-!
# Runs of the manager

A run is a list of events: a new Backend is constructed from the journal (the old
process, if there was one, is gone), a public call is made on the live Backend, the
process stops, the settings authority writes its file, the storage status file changes.
Each construction and each call carries the choices of the environment for the effects
in it, so that a call may also be cut off at any of them. Nothing restricts the order:
the calls `bootstrap` and `start` are made like any other.
-/

namespace Monutchee.System
open Lib Lib.Act

inductive Event where
  | restart (script : List Choice)
  | call (op : Op) (script : List Choice)
  | crash
  | write (content : Bytes)
  | status (file : StatusFile)
  deriving DecidableEq, Repr

/-- The last effect of a call is followed by one more point where the process may stop. -/
def checkpoint : Prog Unit := effect fun _ w => (.ret (), w)

def guarded (S : Site) (op : Op) : Prog Backend.Reply := do
  let r ← Backend.call S op
  checkpoint
  pure r

/-- The world in which the body of a call begins. -/
def entered (op : Op) (script : List Choice) (w : World) : World :=
  { w with script := script, trace := .call op w.failed :: w.trace }

/-- One public call with its marks in the history. -/
def perform (S : Site) (op : Op) (script : List Choice) (w : World) :
    Outcome Error Backend.Reply × World :=
  match guarded S op (entered op script w) with
  | (.ret r, w') => (.ret r, w'.log (.returned op))
  | (.raise e, w') => (.raise e, w'.log (.raised op))
  | (.crash, w') => (.crash, { w' with alive := false, trace := .cut :: w'.trace })

def step (S : Site) (w : World) : Event → World
  | .restart script => (Backend.construct S { w with alive := false, script := script }).2
  | .call op script => if w.alive then (perform S op script w).2 else w
  | .crash => { w with alive := false, trace := .cut :: w.trace }
  | .write content => w.write content
  | .status file => { w with status := file }

def run (S : Site) (w : World) (es : List Event) : World := es.foldl (step S) w

theorem run_concat (S : Site) (w : World) (es : List Event) (e : Event) :
    run S w (es ++ [e]) = step S (run S w es) e := by
  simp [run]

/-- A device before its first boot: no process, no journal, nothing in the history. The
settings file, the paths and the storage status are arbitrary. -/
def fresh (settings : Option Bytes) (tree : List Bytes) (status : StatusFile) : World :=
  { settings := settings, tree := tree, status := status }

/-! ### The product of backend_test.cpp

The profile and the proposal that the tests of the Backend run with, for concrete runs. -/

namespace Fixture

def dhcp : Network := [{ interface := ascii "end0" }]

def static : Network :=
  [{ interface := ascii "end0", mode := .staticIpv4, address := ascii "10.0.0.2"
     gateway := ascii "10.0.0.1", preferredDefault := true }]

def config : Configuration := { system := { network := dhcp } }

def previous : Bytes := ascii "previous"

def candidate : Bytes := ascii "candidate"

/-- The last digits of a number in lower-case hexadecimal, before a text. -/
def hexBefore (text : Bytes) : ℕ → ℕ → Bytes
  | 0, _ => text
  | digits + 1, n =>
    hexBefore (UInt8.ofNat (if n % 16 < 10 then 48 + n % 16 else 87 + n % 16) :: text) digits (n / 16)

def hex (digits n : ℕ) : Bytes := hexBefore [] digits n

def previousHash : Bytes :=
  hex 64 0x6da0633528deaa0144e7b058315f0b753ec0b945163a72bf96a0d18180f9de0d

def candidateHash : Bytes :=
  hex 64 0xdda18a0e21ae47c53b4309434cbc02ae8bf764fa83a6defbb719431242722aa7

/-- SHA-256 on the two contents of the tests. -/
def sha256 (v : Bytes) : Bytes := if v = candidate then candidateHash else previousHash

def site : Site where
  profile :=
    { stateDirectory := ascii "/test/private", activeSettings := ascii "/test/product/active.json"
      resetPaths := [ascii "/test/product"], defaults := config }
  sha256 := sha256

def device : World := fresh (some previous) [] .missing

def id : Bytes := hex 32 0x00112233445566778899aabbccddeeff

def proposal : NetworkProposal := ⟨static, previousHash, candidateHash⟩

/-- A new process that has started; discover() reports the DHCP network. -/
def started : List Event := [.restart [], .call .start [{ config := config }]]

/-- The effects of beginNetwork up to its random id: the platform's check and the hash. -/
def begin : Event := .call (.beginNetwork proposal (ascii "web") []) [{}, {}, { id := id }]

def prepare : Event := .call (.prepareNetworkCommit id) []

def finish (commit : Bool) : Event := .call (.finishNetwork id commit (ascii "web") []) []

/-- Reads off what the journal of a concrete run satisfies. -/
theorem journal_of_any {w : World} {P : State → Prop} [DecidablePred P]
    (h : w.journal.any (fun d => decide (P d)) = true) : ∃ d, w.journal = some d ∧ P d := by
  cases hj : w.journal with
  | none =>
    rw [hj] at h
    simp at h
  | some d =>
    rw [hj] at h
    exact ⟨d, rfl, by simpa using h⟩

end Fixture

end Monutchee.System
