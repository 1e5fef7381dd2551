import Monutchee.System.Durability
import Monutchee.System.Journal
import Monutchee.System.Refinement

/-!
# The journal over a whole run (storage.cpp:163-177, 210-219)

`persist` on the disk of `Durability`: it writes the text of the state, and nothing any more once a
write has failed. What a power cut leaves after any sequence of such calls is the journal of the
Backend's model for some answers of its environment, and the next start loads it.
-/

namespace Monutchee.System.Durability
open Lib Lib.Act
open AtomicWrite (Kernel)
open Backend (recoveryError)

/-- A call of persist: what the system answers, and the state in memory. -/
structure Save where
  kernel : Kernel
  writes : ℕ
  state : State

def persist (G : Glaze) (p : Bytes) (s : Save) : Prog Unit := do
  let failed ← Act.gets fun w => w.failed
  Act.require (!failed) recoveryError
  Act.attempt (atomicWrite s.kernel s.writes p (G.encode s.state)) fun e => do
    Act.modify fun w => { w with failed := true }
    Act.raise e

/-- The errors go to the callers, and the service goes on. -/
def serve (G : Glaze) (p : Bytes) (saves : List Save) : Prog Unit :=
  Act.each (fun s => Act.attempt (persist G p s) fun _ => pure ()) saves

/-! ### One call -/

/-- The journal `j` is durable, and no write has failed. -/
structure Holds (G : Glaze) (p : Bytes) (j : Option State) (w : World) : Prop where
  sound : w.disk.Sound
  kept : ∀ c, w.disk.Found p c → c = j.map G.encode
  failed : w.failed = false

/-- What a power cut may leave from `w` on, during a call that saves `s`. -/
def Moments (G : Glaze) (p : Bytes) (j : Option State) (s : State) (w w' : World) : Prop :=
  ∃ new, w'.seen = w.seen ++ new ∧
    ∀ d ∈ new ++ [w'.disk], ∀ c, d.Found p c → c = j.map G.encode ∨ c = some (G.encode s)

/-- The ways of a call of persist. -/
inductive Persisted (G : Glaze) (p : Bytes) (s : State) : Outcome Error Unit → World → Prop where
  | written {w : World} (h : Holds G p (some s) w) : Persisted G p s (.ret ()) w
  | broken {e : Error} {w : World} (h : w.failed = true) : Persisted G p s (.raise e) w
  | unfinished {w : World} : Persisted G p s .crash w

section Calls
variable {G : Glaze} {p tmp : Bytes} {j : Option State} {w w' : World} {s : Save} {saves : List Save}

theorem Past.moments (hne : p ≠ tmp) (h : Holds G p j w) (hpast : Past w (Target w.disk p tmp (G.encode s.state)) w') :
    Moments G p j s.state w w' := by
  obtain ⟨new, hnew, hall⟩ := hpast.seen
  refine ⟨new, hnew, ?_⟩
  intro d hd c hc
  rcases hall d hd p hne c hc with hold | ⟨-, hvalue⟩
  · exact .inl (h.kept c hold)
  · exact .inr hvalue

theorem persist_refused (hf : w.failed = true) : persist G p s w = (.raise recoveryError, w) := by
  have hr : (Act.require (!w.failed) recoveryError : Prog Unit) w = (.raise recoveryError, w) :=
    Act.require_of_false (by simp [hf])
  rw [persist, Act.gets_bind]
  exact Act.bind_of_raise hr

theorem persist_cases (h : Holds G p j w) :
    Persisted G p s.state (persist G p s w).1 (persist G p s w).2 ∧ Moments G p j s.state w (persist G p s w).2 := by
  have hr : (Act.require (!w.failed) recoveryError : Prog Unit) w = (.ret (), w) :=
    Act.require_of_true (by simp [h.failed])
  have hne : p ≠ temporaryOf s.kernel p := AtomicWrite.temporary_ne p _
  have hwrite := atomicWrite_upholds s.kernel s.writes p (G.encode s.state) h.sound
  have hpast := hwrite.kept
  rw [persist, Act.gets_bind, Act.bind_of_ret hr]
  unfold Act.attempt
  rcases hrun : atomicWrite s.kernel s.writes p (G.encode s.state) w with ⟨o, w₁⟩
  rw [hrun] at hpast
  have hm := hpast.moments hne h
  cases o with
  | ret u =>
    have hdurable := hwrite.post u w₁ hrun
    exact ⟨.written ⟨hdurable.sound, fun c hc => hdurable.replaced c hc, hpast.failed.trans h.failed⟩, hm⟩
  | raise e => exact ⟨.broken rfl, hm⟩
  | crash => exact ⟨.unfinished, hm⟩

theorem serve_cons :
    serve G p (s :: saves) w =
      match persist G p s w with
      | (.ret _, w') => serve G p saves w'
      | (.raise _, w') => serve G p saves w'
      | (.crash, w') => (.crash, w') := by
  show (Act.bind (Act.attempt (persist G p s) _) _) w = _
  unfold Act.bind Act.attempt
  rcases persist G p s w with ⟨o, w'⟩
  cases o <;> rfl

theorem serve_refused (hf : w.failed = true) : serve G p saves w = (.ret (), w) := by
  induction saves with
  | nil => rfl
  | cons s saves ih =>
    rw [serve_cons, persist_refused hf]
    exact ih

theorem serve_append {more : List Save} (hrun : serve G p saves w = (.ret (), w')) :
    serve G p (saves ++ more) w = serve G p more w' := by
  induction saves generalizing w with
  | nil =>
    injection hrun with _ hw
    rw [hw]
    rfl
  | cons s saves ih =>
    rw [serve_cons] at hrun
    rw [List.cons_append, serve_cons]
    rcases hpersist : persist G p s w with ⟨o, w₁⟩
    rw [hpersist] at hrun
    cases o with
    | ret u => exact ih hrun
    | raise e => exact ih hrun
    | crash => cases hrun

end Calls

/-! ### The same calls in the Backend's model -/

/-- Each call assigns a state and saves it. -/
def saveAll (states : List State) : System.Prog Unit :=
  Act.each (fun s => Act.attempt (do Act.modify fun v => { v with state := s }; Backend.persist) fun _ => pure ()) states

/-- For some answers the model ends with the journal `j`. -/
def Reaches (v : System.World) (states : List State) (j : Option State) (failed : Bool) : Prop :=
  ∃ script, ∃ v', saveAll states { v with script := script } = (.ret (), v') ∧ v'.journal = j ∧ v'.failed = failed

section Model
variable {v : System.World} {s : State} {states : List State} {j : Option State} {f : Bool}

theorem saveAll_cons :
    saveAll (s :: states) v =
      match Backend.persist { v with state := s } with
      | (.ret _, v') => saveAll states v'
      | (.raise _, v') => saveAll states v'
      | (.crash, v') => (.crash, v') := by
  show (Act.bind (Act.attempt _ _) _) v = _
  unfold Act.bind Act.attempt
  rw [Act.modify_bind]
  rcases Backend.persist { v with state := s } with ⟨o, v'⟩
  cases o <;> rfl

theorem reaches_nil (hv : v.failed = f) (hj : v.journal = j) : Reaches v [] j f := ⟨[], _, rfl, hj, hv⟩

theorem reaches_failed (hv : v.failed = true) (hj : v.journal = j) : Reaches v states j true := by
  induction states generalizing v with
  | nil => exact reaches_nil hv hj
  | cons s states ih =>
    obtain ⟨script, v', hrun, hjournal, hfailed⟩ := ih (v := { v with state := s }) hv hj
    have hrefused : Backend.persist { v with state := s, script := script } =
        (.raise recoveryError, { v with state := s, script := script }) := Backend.persist_of_failed hv
    refine ⟨script, v', ?_, hjournal, hfailed⟩
    rw [saveAll_cons, hrefused]
    exact hrun

/-- A save that succeeds. -/
theorem reaches_written (hv : v.failed = false)
    (h : ∀ v', v'.failed = false → v'.journal = some s → Reaches v' states j f) : Reaches v (s :: states) j f := by
  obtain ⟨script, v', hrun, hj, hf⟩ := h { v with
    state := s, journal := some s, trace := .journal v.journal s :: v.trace } hv rfl
  have hsaved := Backend.persist_of_sound (w := { v with state := s, script := {} :: script }) hv
  refine ⟨{} :: script, v', ?_, hj, hf⟩
  rw [saveAll_cons, hsaved]
  exact hrun

/-- A save that fails, before the file was replaced or after it; the later ones are refused. -/
theorem reaches_broken (hv : v.failed = false) (hj : j = v.journal ∨ j = some s) : Reaches v (s :: states) j true := by
  have hleaves : ∃ leaves : Bool, (if leaves then some s else v.journal) = j := by
    rcases hj with hold | hnew
    · exact ⟨false, hold.symm⟩
    · exact ⟨true, hnew.symm⟩
  obtain ⟨leaves, hjournal⟩ := hleaves
  have hrest : Reaches { v with
      state := s, failed := true, journal := if leaves then some s else v.journal
      trace := .journalFailed v.journal s leaves :: v.trace } states j true := reaches_failed rfl hjournal
  obtain ⟨script, v', hrun, hj', hf⟩ := hrest
  have hlost := Backend.persist_of_sound
    (w := { v with state := s, script := { fails := true, leaves := leaves } :: script }) hv
  refine ⟨{ fails := true, leaves := leaves } :: script, v', ?_, hj', hf⟩
  rw [saveAll_cons, hlost]
  exact hrun

end Model

/-! ### Whole runs -/

/-- What the model's worlds with the journal `j` come to. -/
def Follows (j : Option State) (states : List State) (j' : Option State) (failed : Bool) : Prop :=
  ∀ v : System.World, v.failed = false → v.journal = j → Reaches v states j' failed

section Runs
variable {G : Glaze} {p : Bytes} {j j' : Option State} {w w' : World} {s : State} {states : List State} {f : Bool}
  {saves : List Save} {c : Option Bytes}

theorem follows_nil : Follows j [] j false := fun _ hv hj => reaches_nil hv hj

theorem Follows.written (h : Follows (some s) states j' f) : Follows j (s :: states) j' f :=
  fun _ hv _ => reaches_written hv fun v' hv' hj' => h v' hv' hj'

theorem follows_broken (h : j' = j ∨ j' = some s) : Follows j (s :: states) j' true := by
  intro v hv hj
  apply reaches_broken hv
  rw [hj]
  exact h

/-- Of a save that failed only the power cut decides whether it is there. -/
theorem serve_follows (h : Holds G p j w) (hrun : serve G p saves w = (.ret (), w')) (hc : w'.disk.Found p c) :
    ∃ j' ∈ j :: saves.map (fun s => some s.state), c = j'.map G.encode ∧
      Follows j (saves.map (·.state)) j' w'.failed := by
  induction saves generalizing w j with
  | nil =>
    injection hrun with _ hw
    subst hw
    exact ⟨j, List.mem_cons_self, h.kept c hc, h.failed ▸ follows_nil⟩
  | cons s saves ih =>
    rw [serve_cons] at hrun
    obtain ⟨hcases, new, -, hall⟩ := persist_cases (s := s) h
    rcases hpersist : persist G p s w with ⟨o, w₁⟩
    rw [hpersist] at hcases hrun hall
    cases hcases with
    | written hholds =>
      obtain ⟨j', hmem, hc', hfollows⟩ := ih hholds hrun
      exact ⟨j', List.mem_cons_of_mem _ hmem, hc', hfollows.written⟩
    | broken hfailed =>
      dsimp only at hrun
      rw [serve_refused hfailed] at hrun
      injection hrun with _ hw
      subst hw
      rw [hfailed]
      have hlast : w₁.disk ∈ new ++ [w₁.disk] := List.mem_append_right _ (List.mem_singleton_self _)
      rcases hall w₁.disk hlast c hc with hold | hnew
      · exact ⟨j, List.mem_cons_self, hold, follows_broken (.inl rfl)⟩
      · exact ⟨some s.state, by simp, hnew, follows_broken (.inr rfl)⟩
    | unfinished => cases hrun

/-- The journal after successful calls. -/
def lastSaved (j : Option State) (saves : List Save) : Option State := saves.foldl (fun _ s => some s.state) j

/-- A run without a failed write has made its last save durable. -/
theorem serve_holds (h : Holds G p j w) (hrun : serve G p saves w = (.ret (), w')) (hf : w'.failed = false) :
    Holds G p (lastSaved j saves) w' := by
  induction saves generalizing w j with
  | nil =>
    injection hrun with _ hw
    subst hw
    exact h
  | cons s saves ih =>
    rw [serve_cons] at hrun
    obtain ⟨hcases, -⟩ := persist_cases (s := s) h
    rcases hpersist : persist G p s w with ⟨o, w₁⟩
    rw [hpersist] at hcases hrun
    cases hcases with
    | written hholds => exact ih hholds hrun
    | broken hfailed =>
      dsimp only at hrun
      rw [serve_refused hfailed] at hrun
      injection hrun with _ hw
      rw [hw, hf] at hfailed
      cases hfailed
    | unfinished => cases hrun

theorem follows_saved (saves : List Save) : Follows j (saves.map (·.state)) (lastSaved j saves) false := by
  induction saves generalizing j with
  | nil => exact follows_nil
  | cons s saves ih => exact Follows.written ih

theorem lastSaved_snoc {s : Save} : lastSaved j (saves ++ [s]) = some s.state := by
  unfold lastSaved
  rw [List.foldl_append]
  rfl

theorem lastSaved_mem : lastSaved j saves ∈ j :: saves.map (fun s => some s.state) := by
  induction saves generalizing j with
  | nil => exact List.mem_cons_self
  | cons s saves ih => exact List.mem_cons_of_mem _ ih

/-- The disks from the first of a call on. -/
def during (w w' : World) : List (Disk Bytes Bytes) := w'.seen.drop w.seen.length ++ [w'.disk]

theorem Moments.during {s : State} (h : Moments G p j s w w') {d : Disk Bytes Bytes} (hd : d ∈ during w w')
    (hc : d.Found p c) : c = j.map G.encode ∨ c = some (G.encode s) := by
  obtain ⟨new, hnew, hall⟩ := h
  rw [Durability.during, hnew, List.drop_left] at hd
  exact hall d hd c hc

/-- At every moment of a call that follows others: what is there before it, or its own state. -/
theorem call_cases (h : Holds G p j w) (hrun : serve G p saves w = (.ret (), w')) {s : Save} {d : Disk Bytes Bytes}
    (hd : d ∈ during w' (persist G p s w').2) (hc : d.Found p c) :
    (w'.failed = true ∧ d = w'.disk) ∨
      (w'.failed = false ∧ (c = (lastSaved j saves).map G.encode ∨ c = some (G.encode s.state))) := by
  by_cases hf : w'.failed = true
  · rw [persist_refused hf, during, List.drop_length, List.nil_append, List.mem_singleton] at hd
    exact .inl ⟨hf, hd⟩
  · have hf' : w'.failed = false := by simpa using hf
    have hm := (persist_cases (s := s) (serve_holds h hrun hf')).2
    exact .inr ⟨hf', hm.during hd hc⟩

end Runs

theorem holds_start {G : Glaze} {p : Bytes} {d : Disk Bytes Bytes} (hd : d.Sound) {j : Option State}
    (hj : ∀ files, d.Remains files → files p = j.map G.encode) : Holds G p j { disk := d } := by
  refine ⟨hd, ?_, rfl⟩
  intro c hc
  obtain ⟨files, hfiles, hread⟩ := Disk.found_remains hc
  rw [← hread]
  exact hj files hfiles

/-- After any calls, a power cut at any moment of the next one leaves the journal of the Backend's model after the calls
before it or after this one too. Once it is over, it leaves that of the model after this one, with the same
`storage_failed_`; of a save that failed only the cut decides whether it is there. -/
theorem serve_refines (G : Glaze) (p : Bytes) (saves : List Save) (s : Save) {d : Disk Bytes Bytes} (hd : d.Sound)
    (j : Option State) (hj : ∀ files, d.Remains files → files p = j.map G.encode) (v : System.World)
    (hv : v.failed = false) (hvj : v.journal = j) {w : World} (hrun : serve G p saves { disk := d } = (.ret (), w)) :
    (∀ moment ∈ during w (persist G p s w).2, ∀ files, moment.Remains files → ∃ states script v',
      (states = saves.map (·.state) ∨ states = (saves ++ [s]).map (·.state)) ∧
        saveAll states { v with script := script } = (.ret (), v') ∧ v'.failed = w.failed ∧
          files p = v'.journal.map G.encode) ∧
      ((persist G p s w).1 ≠ .crash → ∀ files, (persist G p s w).2.disk.Remains files → ∃ script v',
        saveAll ((saves ++ [s]).map (·.state)) { v with script := script } = (.ret (), v') ∧
          v'.failed = (persist G p s w).2.failed ∧ files p = v'.journal.map G.encode) := by
  have hstart : Holds G p j { disk := d } := holds_start hd hj
  constructor
  · intro moment hm files hfiles
    rcases call_cases hstart hrun hm (hfiles.found p) with ⟨-, hsame⟩ | ⟨hf, hold | hnew⟩
    · obtain ⟨j', -, hc, hfollows⟩ := serve_follows hstart hrun (hsame ▸ hfiles.found p)
      obtain ⟨script, v', hmodel, hj', hfailed⟩ := hfollows v hv hvj
      exact ⟨_, script, v', .inl rfl, hmodel, hfailed, hj' ▸ hc⟩
    · obtain ⟨script, v', hmodel, hj', hfailed⟩ := follows_saved saves v hv hvj
      exact ⟨_, script, v', .inl rfl, hmodel, hfailed.trans hf.symm, hj' ▸ hold⟩
    · obtain ⟨script, v', hmodel, hj', hfailed⟩ := follows_saved (saves ++ [s]) v hv hvj
      rw [lastSaved_snoc] at hj'
      exact ⟨_, script, v', .inr rfl, hmodel, hfailed.trans hf.symm, hj' ▸ hnew⟩
  · intro hcrash files hfiles
    have hall : serve G p (saves ++ [s]) { disk := d } = (.ret (), (persist G p s w).2) := by
      rw [serve_append hrun, serve_cons]
      rcases hcall : persist G p s w with ⟨o, w'⟩
      rw [hcall] at hcrash
      cases o with
      | ret u => rfl
      | raise e => rfl
      | crash => exact absurd rfl hcrash
    obtain ⟨j', -, hc, hfollows⟩ := serve_follows hstart hall (hfiles.found p)
    obtain ⟨script, v', hmodel, hj', hfailed⟩ := hfollows v hv hvj
    exact ⟨script, v', hmodel, hfailed, hj' ▸ hc⟩

namespace Sample

def empty : Disk Bytes Bytes where
  node _ := []
  clean _ := false
  used := 0
  names _ := none
  durable _ := none
  pending := []

theorem empty_sound : empty.Sound := by
  constructor
  · intro n i hn
    rcases hn with hdurable | hpending
    · cases hdurable
    · cases hpending
  · intro n
    exact .inl rfl

theorem empty_remains {files : Bytes → Option Bytes} (h : empty.Remains files) (n : Bytes) : files n = none := by
  obtain ⟨e, hentry, hreads⟩ := h.found n
  rcases hentry with hdurable | hpending
  · rw [hdurable] at hreads
    exact hreads
  · cases hpending

/-- The system takes a whole text at once. -/
def fast : Kernel := { kernel with write := fun _ => .count maxMessageSize }

def first : Save := ⟨fast, 1, { initialized := true }⟩

/-- The directory cannot be synchronised after the rename. -/
def second : Save := ⟨{ fast with syncDirectory := some (ascii "Input/output error") }, 1, { resetIntent := true }⟩

theorem fast_succeeds : AtomicWrite.Succeeds fast (ascii "0") := ⟨rfl, rfl, rfl, fun _ => rfl, rfl, rfl, rfl, rfl⟩

/-- Nothing stands in the way of a write to an empty disk. -/
theorem fast_persist {G : Glaze} {s : State} (hlen : (G.encode s).length ≤ maxMessageSize) :
    (persist G path ⟨fast, 1, s⟩ { disk := empty }).1 = .ret () := by
  have hfinishes : AtomicWrite.Finishes fast (G.encode s) 1 := by
    right
    show (G.encode s).length ≤ maxMessageSize + 0
    exact hlen
  have hshows : Shows { disk := empty } { files := fun _ => none } := ⟨rfl, rfl, rfl, rfl, empty_sound⟩
  obtain ⟨w', hwrite⟩ : ∃ w', atomicWrite fast 1 path (G.encode s) { disk := empty } = (.ret (), w') :=
    atomicWrite_returns fast_succeeds hshows rfl hfinishes
  have hready : (Act.require (!false) recoveryError : Prog Unit) { disk := empty } = (.ret (), { disk := empty }) :=
    Act.require_of_true rfl
  rw [persist, Act.gets_bind, Act.bind_of_ret hready]
  unfold Act.attempt
  rw [hwrite]

end Sample

open Sample in
theorem serve_refines_failed :
    (persist Fixture.glaze path second (serve Fixture.glaze path [first] { disk := empty }).2).2.failed = true ∧
    ∀ files, (persist Fixture.glaze path second (serve Fixture.glaze path [first] { disk := empty }).2).2.disk.Remains files →
      ∃ script v', saveAll [first.state, second.state] { script := script } = (.ret (), v') ∧ v'.failed = true ∧
        files path = v'.journal.map Fixture.glaze.encode := by
  have hrun : (serve Fixture.glaze path [first] { disk := empty }).1 = .ret () := by
    have hfast : (persist Fixture.glaze path first { disk := empty }).1 = .ret () := fast_persist (by decide +kernel)
    rw [serve_cons]
    rcases hcall : persist Fixture.glaze path first { disk := empty } with ⟨o, w⟩
    rw [hcall] at hfast
    cases hfast
    rfl
  obtain ⟨hfailed, hcrash⟩ :
      (persist Fixture.glaze path second (serve Fixture.glaze path [first] { disk := empty }).2).2.failed = true ∧
        (persist Fixture.glaze path second (serve Fixture.glaze path [first] { disk := empty }).2).1 ≠ .crash := by
    decide +kernel
  have h := (serve_refines Fixture.glaze path [first] second empty_sound none (fun _ hf => empty_remains hf path) {} rfl rfl
    (Act.run_eq hrun)).2 hcrash
  rw [hfailed] at h
  exact ⟨hfailed, h⟩

/-! ### The next start -/

theorem load_journal {P : Profile} {G : Glaze} (hG : G.Short) {j : Option State}
    (hj : ∀ s, j = some s → WellFormed P journalLimits s ∧ G.Reads s) :
    G.load P (j.map G.encode) = .ok (Backend.loaded P j) := by
  cases j with
  | none => rfl
  | some s =>
    obtain ⟨hwell, hreads⟩ := hj s rfl
    have hlen := hwell.encode_length hG
    have hmax : maxMessageSize = 65536 := rfl
    have hdecode : decode G.read (G.encode s) = .ok s := decode_encode (by omega) (hreads hwell.writable)
    show (decode G.read (G.encode s)).map (Backend.migrate P) = _
    rw [hdecode]
    rfl

/-- After any calls and a power cut at any moment of the next one, the constructor accepts the file and starts from a
state that was saved, or from what was there before the first call. If no write had failed, that is the last one or the
one of this call, and if this call has returned it is this one. -/
theorem serve_reloads (P : Profile) (G : Glaze) (hG : G.Short) (p : Bytes) (saves : List Save) (s : Save)
    {d : Disk Bytes Bytes} (hd : d.Sound) (j : Option State) (hj : ∀ files, d.Remains files → files p = j.map G.encode)
    (hstates : ∀ t, some t ∈ j :: (saves ++ [s]).map (fun s => some s.state) →
      WellFormed P journalLimits t ∧ G.Reads t)
    {w : World} (hrun : serve G p saves { disk := d } = (.ret (), w)) :
    (∀ moment ∈ during w (persist G p s w).2, ∀ files, moment.Remains files →
      ∃ j' ∈ j :: (saves ++ [s]).map (fun s => some s.state), G.load P (files p) = .ok (Backend.loaded P j') ∧
        (w.failed = false → j' = lastSaved j saves ∨ j' = some s.state)) ∧
      ((persist G p s w).1 = .ret () → ∀ files, (persist G p s w).2.disk.Remains files →
        G.load P (files p) = .ok (Backend.loaded P (some s.state))) := by
  have hstart : Holds G p j { disk := d } := holds_start hd hj
  have hload : ∀ j' ∈ j :: (saves ++ [s]).map (fun s => some s.state),
      G.load P (j'.map G.encode) = .ok (Backend.loaded P j') :=
    fun j' hmem => load_journal hG fun t ht => hstates t (ht ▸ hmem)
  have hbefore : ∀ j' ∈ j :: saves.map (fun s => some s.state), j' ∈ j :: (saves ++ [s]).map (fun s => some s.state) := by
    intro j' hmem
    rw [List.map_append, ← List.cons_append]
    exact List.mem_append_left _ hmem
  have hlast : some s.state ∈ j :: (saves ++ [s]).map (fun s => some s.state) := by simp
  constructor
  · intro moment hm files hfiles
    rcases call_cases hstart hrun hm (hfiles.found p) with ⟨hf, hsame⟩ | ⟨-, hold | hnew⟩
    · obtain ⟨j', hmem, hc, -⟩ := serve_follows hstart hrun (hsame ▸ hfiles.found p)
      refine ⟨j', hbefore j' hmem, hc ▸ hload j' (hbefore j' hmem), ?_⟩
      intro hno
      rw [hf] at hno
      cases hno
    · have hmem := hbefore (lastSaved j saves) lastSaved_mem
      exact ⟨_, hmem, hold ▸ hload _ hmem, fun _ => .inl rfl⟩
    · exact ⟨_, hlast, hnew ▸ hload _ hlast, fun _ => .inr rfl⟩
  · intro hret files hfiles
    have hf : w.failed = false := by
      by_contra hno
      rw [persist_refused (by simpa using hno)] at hret
      cases hret
    have hcases := (persist_cases (s := s) (serve_holds hstart hrun hf)).1
    rcases hcall : persist G p s w with ⟨o, w'⟩
    rw [hcall] at hcases hret hfiles
    cases hcases with
    | written hholds =>
      rw [hholds.kept _ (hfiles.found p)]
      exact hload _ hlast
    | broken => cases hret
    | unfinished => cases hret

theorem journaled_wellFormed : WellFormed Fixture.site.profile journalLimits Fixture.journaled := by
  have hids : ∀ l ∈ Fixture.begun, ∀ c ∈ l.choices, hexId c.id = true := by decide
  have hsound : Sound Fixture.daemon.site.profile := by
    refine ⟨by decide, ?_, ?_⟩
    · intro b hb
      simp [Fixture.daemon, Fixture.site] at hb
    · intro b hb
      simp [Fixture.daemon, Fixture.site] at hb
  have hw := lives_sustained (D := Fixture.daemon) (journal_surroundings hsound)
    (fun l hl => journal_within (hids l hl)) (fresh_sustained (some Fixture.previous) [] .missing fun h => h)
  have hjournal : (Fixture.daemon.lives (fresh (some Fixture.previous) [] .missing) Fixture.begun).journal =
      some Fixture.journaled := by decide +kernel
  exact hw.durable.stored _ hjournal

open Sample in
theorem serve_reloads_begun :
    (persist Fixture.glaze path ⟨fast, 1, Fixture.journaled⟩ { disk := empty }).1 = .ret () ∧
    ∀ files, (persist Fixture.glaze path ⟨fast, 1, Fixture.journaled⟩ { disk := empty }).2.disk.Remains files →
      Fixture.glaze.load Fixture.site.profile (files path) =
        .ok (Backend.loaded Fixture.site.profile (some Fixture.journaled)) := by
  have hstates : ∀ t, some t ∈ [none, some Fixture.journaled] →
      WellFormed Fixture.site.profile journalLimits t ∧ Fixture.glaze.Reads t := by
    intro t ht
    have hsame : t = Fixture.journaled := by simpa using ht
    rw [hsame]
    exact ⟨journaled_wellFormed, fun _ => Fixture.glaze_reads⟩
  have hlen := journaled_wellFormed.encode_length Fixture.quoted_short
  have hret : (persist Fixture.glaze path ⟨fast, 1, Fixture.journaled⟩ { disk := empty }).1 = .ret () :=
    fast_persist (hlen.trans (by decide))
  have h := serve_reloads Fixture.site.profile Fixture.glaze Fixture.quoted_short path [] ⟨fast, 1, Fixture.journaled⟩
    empty_sound none (fun _ hf => empty_remains hf path) hstates rfl
  exact ⟨hret, h.2 hret⟩

end Monutchee.System.Durability
