import Monutchee.Lib.Path
import Monutchee.Lib.Session

/-!
# Calls to a server over a bus

Clients send requests to one server, which serves one at a time and also moves by itself. The bus
brings a request to the server once or never, and a reply to its caller once or never; a caller may
give up at any time, and its request may still be served. Sends, services, and ends of calls
interleave in any order; the history has one event for each. If a call ends with a reply, the server
served it once, between its two ends, and gave this reply at that point of its own sequential run.
-/

namespace Monutchee.Lib.Exchange
open Relation

variable {S Q X Y R : Type}

/-- `serve` takes what the environment does meanwhile; no reply is sent if it gives none. -/
structure Server (S Q X Y R : Type) where
  serve : Q → X → S → Option R × S
  idle : Y → S → S

/-- `closed` is the end of a call, with its reply or without. -/
inductive Event (Q X Y R : Type) where
  | sent (call : ℕ) (q : Q)
  | served (call : ℕ) (q : Q) (x : X) (reply : Option R)
  | idled (y : Y)
  | closed (call : ℕ) (reply : Option R)

structure State (S Q X Y R : Type) where
  server : S
  history : List (Event Q X Y R) := []

def Event.sends (call : ℕ) : Event Q X Y R → Prop
  | .sent k _ => k = call
  | _ => False

def Event.serves (call : ℕ) : Event Q X Y R → Prop
  | .served k _ _ _ => k = call
  | _ => False

def Event.closes (call : ℕ) : Event Q X Y R → Prop
  | .closed k _ => k = call
  | _ => False

/-- Nothing of the kind has happened. -/
def Never (p : Event Q X Y R → Prop) (history : List (Event Q X Y R)) : Prop := ∀ e ∈ history, ¬ p e

def State.note (s : State S Q X Y R) (e : Event Q X Y R) (server : S) : State S Q X Y R :=
  ⟨server, s.history ++ [e]⟩

variable (V : Server S Q X Y R)

inductive Step (s : State S Q X Y R) : State S Q X Y R → Prop where
  | send (k : ℕ) (q : Q) : Never (·.sends k) s.history → Step s (s.note (.sent k q) s.server)
  | serve (k : ℕ) (q : Q) (x : X) : .sent k q ∈ s.history → Never (·.serves k) s.history →
      Step s (s.note (.served k q x (V.serve q x s.server).1) (V.serve q x s.server).2)
  | idle (y : Y) : Step s (s.note (.idled y) (V.idle y s.server))
  | deliver (k : ℕ) (q : Q) (x : X) (r : R) : .served k q x (some r) ∈ s.history →
      Never (·.closes k) s.history → Step s (s.note (.closed k (some r)) s.server)
  | giveUp (k : ℕ) (q : Q) : .sent k q ∈ s.history → Never (·.closes k) s.history →
      Step s (s.note (.closed k none) s.server)

def Reachable (server : S) (s : State S Q X Y R) : Prop := ReflTransGen (Step V) ⟨server, []⟩ s

/-! ### The run of the server -/

def Server.move (server : S) : Event Q X Y R → S
  | .served _ q x _ => (V.serve q x server).2
  | .idled y => V.idle y server
  | _ => server

def Server.replay (server : S) (history : List (Event Q X Y R)) : S := history.foldl V.move server

theorem replay_append (server : S) (l m : List (Event Q X Y R)) :
    V.replay server (l ++ m) = V.replay (V.replay server l) m := by
  unfold Server.replay
  rw [List.foldl_append]

/-- What an event needs before it. -/
def licence (server : S) (before : List (Event Q X Y R)) : Event Q X Y R → Prop
  | .sent k _ => Never (·.sends k) before
  | .served k q x reply => .sent k q ∈ before ∧ Never (·.serves k) before ∧
      reply = (V.serve q x (V.replay server before)).1
  | .idled _ => True
  | .closed k (some r) => (∃ q x, .served k q x (some r) ∈ before) ∧ Never (·.closes k) before
  | .closed k none => (∃ q, .sent k q ∈ before) ∧ Never (·.closes k) before

/-- The state of the server is that of a sequential run, and every event is licensed. -/
structure Sound (server : S) (s : State S Q X Y R) : Prop where
  replayed : s.server = V.replay server s.history
  licensed : Session.Licensed (licence V server) s.history

variable {V} {server : S} {s s' : State S Q X Y R}

theorem Sound.note (h : Sound V server s) {e : Event Q X Y R} (he : licence V server s.history e) :
    Sound V server (s.note e (V.move s.server e)) := by
  constructor
  · show V.move s.server e = V.replay server (s.history ++ [e])
    rw [replay_append, ← h.replayed]
    rfl
  · exact h.licensed.snoc he

theorem step_sound (h : Sound V server s) (hs : Step V s s') : Sound V server s' := by
  cases hs with
  | send k q hfresh => exact h.note (e := .sent k q) hfresh
  | serve k q x hsent hfirst =>
    have hreply : (V.serve q x s.server).1 = (V.serve q x (V.replay server s.history)).1 := by
      rw [← h.replayed]
    exact h.note (e := .served k q x (V.serve q x s.server).1) ⟨hsent, hfirst, hreply⟩
  | idle y => exact h.note (e := .idled y) trivial
  | deliver k q x r hserved hopen => exact h.note (e := .closed k (some r)) ⟨⟨q, x, hserved⟩, hopen⟩
  | giveUp k q hsent hopen => exact h.note (e := .closed k none) ⟨⟨q, hsent⟩, hopen⟩

theorem reachable_sound (h : Reachable V server s) : Sound V server s :=
  path_keeps (fun _ _ hs hi => step_sound hi hs) h ⟨rfl, Session.licensed_nil⟩

/-! ### Calls that were answered -/

/-- The events of one kind for one call, of which the first excludes the others. -/
theorem never_after {L : List (Event Q X Y R) → Event Q X Y R → Prop} {p : Event Q X Y R → Prop}
    {before after : List (Event Q X Y R)} {e : Event Q X Y R} (h : Session.Licensed L (before ++ e :: after))
    (he : p e) (honce : ∀ l x, L l x → p x → Never p l) : Never p after := by
  intro x hx hp
  obtain ⟨l, m, hsplit⟩ := List.append_of_mem hx
  have hall : before ++ e :: after = (before ++ e :: l) ++ x :: m := by
    rw [hsplit, List.append_assoc, List.cons_append]
  have hnever := honce _ x (h _ x m hall) hp
  exact hnever e (by simp) he

theorem licence_serves (l : List (Event Q X Y R)) (x : Event Q X Y R) (k : ℕ) (h : licence V server l x)
    (hx : x.serves k) : Never (·.serves k) l := by
  cases x with
  | served k' q x r =>
    have hk : k' = k := hx
    rw [← hk]
    exact h.2.1
  | _ => cases hx

theorem licence_sends (l : List (Event Q X Y R)) (x : Event Q X Y R) (k : ℕ) (h : licence V server l x)
    (hx : x.sends k) : Never (·.sends k) l := by
  cases x with
  | sent k' q =>
    have hk : k' = k := hx
    rw [← hk]
    exact h
  | _ => cases hx

/-- A call has one request. -/
theorem Sound.sent_eq (h : Sound V server s) {k : ℕ} {q q' : Q} (hq : .sent k q ∈ s.history)
    (hq' : .sent k q' ∈ s.history) : q = q' := by
  obtain ⟨l, m, hsplit⟩ := List.append_of_mem hq
  have hlicensed := h.licensed
  rw [hsplit] at hlicensed
  have hbefore := licence_sends l _ k (hlicensed l _ m rfl) rfl
  have hafter := never_after (p := (·.sends k)) hlicensed rfl fun l x hx hp => licence_sends l x k hx hp
  rw [hsplit, List.mem_append, List.mem_cons] at hq'
  rcases hq' with hl | heq | hm
  · exact absurd rfl (hbefore _ hl)
  · exact (Event.sent.inj heq).2.symm
  · exact absurd rfl (hafter _ hm)

/-- What lies around the events of a call that was answered: before it was sent, until it was served,
until it ended, and after that. `x` is what happened while it was served. -/
structure Around (Q X Y R : Type) where
  early : List (Event Q X Y R)
  middle : List (Event Q X Y R)
  late : List (Event Q X Y R)
  rest : List (Event Q X Y R)
  x : X

/-- The part of the history before the service. -/
def Around.past (a : Around Q X Y R) (k : ℕ) (q : Q) : List (Event Q X Y R) := a.early ++ .sent k q :: a.middle

/-- The part of the history after the service. -/
def Around.future (a : Around Q X Y R) (k : ℕ) (r : R) : List (Event Q X Y R) := a.late ++ .closed k (some r) :: a.rest

/-- The call was served once, between its two ends. -/
structure Answered (history : List (Event Q X Y R)) (k : ℕ) (q : Q) (r : R) (a : Around Q X Y R) : Prop where
  split : history = a.past k q ++ .served k q a.x (some r) :: a.future k r
  past : Never (·.serves k) (a.past k q)
  future : Never (·.serves k) (a.future k r)

/-- A call that ended with a reply was answered, and the reply is the server's in its own run. -/
theorem Sound.answered (h : Sound V server s) {k : ℕ} {q : Q} {r : R} (hq : .sent k q ∈ s.history)
    (hclosed : .closed k (some r) ∈ s.history) :
    ∃ a, Answered s.history k q r a ∧ (V.serve q a.x (V.replay server (a.past k q))).1 = some r := by
  obtain ⟨l, rest, hhistory⟩ := List.append_of_mem hclosed
  obtain ⟨⟨q', x, hserved⟩, -⟩ := h.licensed l _ rest hhistory
  obtain ⟨m, late, hl⟩ := List.append_of_mem hserved
  have hserve : s.history = m ++ .served k q' x (some r) :: (late ++ .closed k (some r) :: rest) := by
    rw [hhistory, hl, List.append_assoc, List.cons_append]
  obtain ⟨hsent, hfirst, hreply⟩ := h.licensed m _ _ hserve
  have hqq' : q = q' := h.sent_eq hq (by
    rw [hserve]
    exact List.mem_append_left _ hsent)
  rw [← hqq'] at hserve hsent hreply
  obtain ⟨early, middle, hm⟩ := List.append_of_mem hsent
  have hlicensed := h.licensed
  rw [hserve] at hlicensed
  have hnever := never_after (p := (·.serves k)) hlicensed rfl fun l x hx hp => licence_serves l x k hx hp
  rw [hm] at hserve hfirst hreply
  exact ⟨⟨early, middle, late, rest, x⟩, ⟨hserve, hfirst, hnever⟩, hreply.symm⟩

end Monutchee.Lib.Exchange
