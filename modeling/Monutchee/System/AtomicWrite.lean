import Mathlib.Logic.Function.Basic
import Monutchee.Lib.Act
import Monutchee.System.Data

/-!
# Replacing a file (storage.cpp:46-70)

`atomicWrite` with each of its calls of the system: the kernel answers them, a write also in part or
not at all, and the world remembers the files before each call. `close` changes no file. A run that
is still writing after as many writes as it was given is cut off there.
-/

namespace Monutchee.System.AtomicWrite
open Monutchee.Lib Monutchee.Lib.Act

/-- The answer to a write: a number of bytes, EINTR, or another error with its text. -/
inductive Written where
  | count (n : ℕ)
  | interrupted
  | failed (reason : Bytes)
  deriving DecidableEq, Repr

/-- The answers of the system; a failure has the text of its errno. -/
structure Kernel where
  directories : Option Error
  random : Except Error Bytes
  create : Option Bytes
  write : ℕ → Written
  sync : Option Bytes
  rename : Option Bytes
  openDirectory : Option Bytes
  syncDirectory : Option Bytes
  /-- The text of the errno that is left when a write returns zero. -/
  errno : Bytes

abbrev Contents := Bytes → Option Bytes

/-- `seen` and `renamed` are for the specification: the files before each call so far, and whether
the rename has taken place. -/
structure World where
  files : Contents
  writes : ℕ := 0
  seen : List Contents := []
  renamed : Bool := false

abbrev Prog := Act World Error

def World.note (w : World) : World := { w with seen := w.seen ++ [w.files] }

def World.put (w : World) (path : Bytes) (content : Option Bytes) : World :=
  { w with files := Function.update w.files path content }

/-- A world that remembers what there is before each call. -/
class Noted (W : Type) where
  note : W → W

instance : Noted World := ⟨World.note⟩

def call {W α : Type} [Noted W] (m : Act W Error α) : Act W Error α := fun w => m (Noted.note w)

def io (failure : Option Bytes) (what : String) : Except Error Unit :=
  match failure with
  | none => .ok ()
  | some reason => .error ⟨.applyFailed, ascii what ++ ascii ": " ++ reason⟩

def createDirectories {W : Type} [Noted W] (k : Kernel) : Act W Error Unit :=
  call (match k.directories with
    | none => pure ()
    | some e => Act.raise e)

def randomId {W : Type} [Noted W] (k : Kernel) : Act W Error Bytes := call (Act.lift k.random)

/-- `open` with O_CREAT and O_EXCL -/
def openFile (k : Kernel) (tmp : Bytes) : Prog Unit := call do
  let taken ← Act.gets fun w => (w.files tmp).isSome
  Act.lift (io (if taken then some (ascii "File exists") else k.create) "create state file")
  Act.modify fun w => w.put tmp (some [])

def Written.amount : Written → ℕ
  | .count n => n
  | .interrupted => 0
  | .failed _ => 0

def write (k : Kernel) (tmp value : Bytes) : Prog Written := call do
  let written ← Act.gets fun w => k.write w.writes
  Act.modify fun w => { w.put tmp ((w.files tmp).map (· ++ value.take written.amount)) with writes := w.writes + 1 }
  return written

def unfinished {W : Type} : Act W Error Unit := fun w => (.crash, w)

/-- A write takes no more than it is given. -/
def writeLoop (k : Kernel) (tmp : Bytes) : ℕ → Bytes → Prog Unit
  | 0, value => if value = [] then pure () else unfinished
  | writes + 1, value =>
    if value = [] then pure () else do
      match ← write k tmp value with
      | .interrupted => writeLoop k tmp writes value
      | .failed reason => Act.lift (io (some reason) "write state")
      | .count 0 => Act.lift (io (some k.errno) "write state")
      | .count (n + 1) => writeLoop k tmp writes (value.drop (n + 1))

def fsync (k : Kernel) : Prog Unit := call (Act.lift (io k.sync "sync state"))

def rename (k : Kernel) (tmp p : Bytes) : Prog Unit := call do
  Act.lift (io k.rename "replace state")
  Act.modify fun w => { (w.put p (w.files tmp)).put tmp none with renamed := true }

def syncDirectory (k : Kernel) : Prog Unit := do
  call (Act.lift (io k.openDirectory "open directory"))
  call (Act.lift (io k.syncDirectory "sync directory"))

def unlink (tmp : Bytes) : Prog Unit := call (Act.modify fun w => w.put tmp none)

def replace (k : Kernel) (writes : ℕ) (p tmp value : Bytes) : Prog Unit := do
  writeLoop k tmp writes value
  fsync k
  rename k tmp p
  syncDirectory k

def temporary (p id : Bytes) : Bytes := p ++ ascii "." ++ id ++ ascii ".tmp"

def atomicWrite (k : Kernel) (writes : ℕ) (p value : Bytes) : Prog Unit := do
  createDirectories k
  let id ← randomId k
  let tmp := temporary p id
  openFile k tmp
  Act.attempt (replace k writes p tmp value) fun e => do
    unlink tmp
    Act.raise e

/-! ### The moments of a run -/

/-- So far and now, the target has its old content or the new one. -/
def Seen (files : Contents) (p value : Bytes) (w : World) : Prop :=
  ∀ moment ∈ w.seen ++ [w.files], moment p = files p ∨ moment p = some value

/-- Only the temporary is there beside the old files, with what was written. -/
structure Writing (files : Contents) (p tmp value written : Bytes) (w : World) : Prop where
  seen : Seen files p value w
  files_eq : w.files = Function.update files tmp (some written)
  early : w.renamed = false

/-- The target is replaced, and the temporary is gone. -/
structure Replaced (files : Contents) (p value : Bytes) (w : World) : Prop where
  seen : Seen files p value w
  files_eq : w.files = Function.update files p (some value)
  late : w.renamed = true

/-- All files are as before. -/
structure Unchanged (files : Contents) (p value : Bytes) (w : World) : Prop where
  seen : Seen files p value w
  files_eq : w.files = files
  early : w.renamed = false

def During (files : Contents) (p tmp value : Bytes) (w : World) : Prop :=
  (∃ written, Writing files p tmp value written w) ∨ Replaced files p value w

variable {files : Contents} {p tmp value : Bytes} {w : World}

theorem call_apply {α : Type} (m : Prog α) (w : World) : call m w = m w.note := rfl

theorem call_upholds {W α : Type} [Noted W] {I : W → Prop} {m : Act W Error α} {w : W} {Q : α → W → Prop}
    (h : Upholds I m (Noted.note w) Q) : Upholds I (call m) w Q := ⟨h.kept, h.post⟩

/-- A call that only succeeds or fails keeps what holds. -/
theorem call_lift {I J : World → Prop} {x : Except Error Unit} (hnote : J w.note) (hJ : ∀ w, J w → I w) :
    Upholds I (call (Act.lift x)) w fun _ w' => J w' :=
  call_upholds (Upholds.lift (hJ _ hnote) fun _ _ => hnote)

theorem Seen.note (h : Seen files p value w) : Seen files p value w.note := by
  intro moment hm
  rw [List.mem_append, List.mem_singleton] at hm
  cases hm with
  | inl hold => exact h moment hold
  | inr hnow => exact h moment (List.mem_append_right _ (List.mem_singleton.mpr hnow))

/-- The files after a change, when those before it are already among the seen ones. -/
theorem Seen.change {w w' : World} (h : Seen files p value w) (hseen : w'.seen = w.seen ++ [w.files])
    (hp : w'.files p = files p ∨ w'.files p = some value) : Seen files p value w' := by
  intro moment hm
  rw [hseen, List.mem_append, List.mem_singleton] at hm
  cases hm with
  | inl hold => exact h moment hold
  | inr hnow => exact hnow ▸ hp

theorem Writing.note {written : Bytes} (h : Writing files p tmp value written w) :
    Writing files p tmp value written w.note := ⟨h.seen.note, h.files_eq, h.early⟩

theorem Replaced.note (h : Replaced files p value w) : Replaced files p value w.note :=
  ⟨h.seen.note, h.files_eq, h.late⟩

theorem Unchanged.note (h : Unchanged files p value w) : Unchanged files p value w.note :=
  ⟨h.seen.note, h.files_eq, h.early⟩

/-! ### The writes -/

section
variable (hne : p ≠ tmp) {k : Kernel}
include hne

theorem write_run {written : Bytes} (rest : Bytes) (h : Writing files p tmp value written w) :
    ∃ w', write k tmp rest w = (.ret (k.write w.writes), w') ∧
      Writing files p tmp value (written ++ rest.take (k.write w.writes).amount) w' ∧ w'.writes = w.writes + 1 := by
  refine ⟨_, rfl, ⟨?_, ?_, h.early⟩, rfl⟩
  · apply h.seen.change rfl
    left
    show Function.update w.files tmp _ p = files p
    rw [Function.update_of_ne hne, h.files_eq, Function.update_of_ne hne]
  · show Function.update w.files tmp ((w.files tmp).map _) = _
    rw [h.files_eq, Function.update_self, Function.update_idem]
    rfl

/-- However the writes come out, only the temporary changes, and in the end it has the value. -/
theorem writeLoop_upholds {writes : ℕ} {written rest : Bytes} (hvalue : written ++ rest = value)
    (h : Writing files p tmp value written w) :
    Upholds (During files p tmp value) (writeLoop k tmp writes rest) w
      fun _ w' => Writing files p tmp value value w' := by
  induction writes generalizing written rest w with
  | zero =>
    unfold writeLoop
    split
    · rename_i hrest
      rw [hrest, List.append_nil] at hvalue
      exact Upholds.pure (.inl ⟨written, h⟩) (hvalue ▸ h)
    · exact ⟨.inl ⟨written, h⟩, fun _ _ hret => by cases hret⟩
  | succ writes ih =>
    unfold writeLoop
    split
    · rename_i hrest
      rw [hrest, List.append_nil] at hvalue
      exact Upholds.pure (.inl ⟨written, h⟩) (hvalue ▸ h)
    · obtain ⟨w', hrun, hw', -⟩ := write_run hne (k := k) rest h
      apply Upholds.after hrun
      rcases hanswer : k.write w.writes with n | _ | reason
      · rw [hanswer] at hw'
        cases n with
        | zero => exact Upholds.raise (.inl ⟨_, hw'⟩)
        | succ n =>
          apply ih _ hw'
          rw [List.append_assoc]
          show written ++ (rest.take (n + 1) ++ rest.drop (n + 1)) = value
          rw [List.take_append_drop, hvalue]
      · rw [hanswer] at hw'
        apply ih _ hw'
        simpa [Written.amount] using hvalue
      · exact Upholds.raise (.inl ⟨_, hw'⟩)

/-! ### The steps after the writes -/

theorem rename_upholds (hnew : files tmp = none) (h : Writing files p tmp value value w) :
    Upholds (During files p tmp value) (rename k tmp p) w fun _ w' => Replaced files p value w' := by
  apply call_upholds
  apply Upholds.bind (Upholds.lift (Q := fun _ w' => w' = w.note) (.inl ⟨value, h.note⟩) fun _ _ => rfl)
  rintro _ _ _ rfl
  have hfiles : Function.update (Function.update w.files p (w.files tmp)) tmp none = Function.update files p (some value) := by
    rw [h.files_eq, Function.update_self, Function.update_comm hne.symm, Function.update_idem,
      Function.update_comm hne, ← hnew, Function.update_eq_self]
  have hdone : Replaced files p value { (w.note.put p (w.note.files tmp)).put tmp none with renamed := true } := by
    refine ⟨?_, hfiles, rfl⟩
    apply h.seen.change rfl
    right
    exact (congrFun hfiles p).trans (Function.update_self ..)
  exact Upholds.modify (.inr hdone) hdone

omit hne in
theorem syncDirectory_upholds (h : Replaced files p value w) :
    Upholds (During files p tmp value) (syncDirectory k) w fun _ w' => Replaced files p value w' := by
  unfold syncDirectory
  apply Upholds.bind (call_lift h.note fun _ => .inr)
  intro _ w₁ _ h₁
  exact call_lift h₁.note fun _ => .inr

theorem replace_upholds (hnew : files tmp = none) (writes : ℕ) (h : Writing files p tmp value [] w) :
    Upholds (During files p tmp value) (replace k writes p tmp value) w fun _ w' => Replaced files p value w' := by
  unfold replace
  apply Upholds.bind (writeLoop_upholds hne (List.nil_append value) h)
  intro _ w₁ _ h₁
  apply Upholds.bind (call_lift h₁.note fun _ hw => .inl ⟨value, hw⟩)
  intro _ w₂ _ h₂
  apply Upholds.bind (rename_upholds hne hnew h₂)
  intro _ w₃ _ h₃
  exact syncDirectory_upholds h₃
end

/-! ### The handler -/

/-- How a run may end after a raise: all files are as before, or the rename had taken place. -/
def Raised (files : Contents) (p value : Bytes) (w : World) : Prop :=
  Unchanged files p value w ∨ Replaced files p value w

theorem During.unlink (hne : p ≠ tmp) (hnew : files tmp = none) (h : During files p tmp value w) :
    Raised files p value (w.note.put tmp none) := by
  rcases h with ⟨written, h⟩ | h
  · have hfiles : Function.update w.files tmp none = files := by
      rw [h.files_eq, Function.update_idem, ← hnew, Function.update_eq_self]
    refine .inl ⟨?_, hfiles, h.early⟩
    apply h.seen.change rfl
    left
    exact congrFun hfiles p
  · have hfiles : Function.update w.files tmp none = Function.update files p (some value) := by
      rw [h.files_eq, Function.update_comm hne, ← hnew, Function.update_eq_self]
    refine .inr ⟨?_, hfiles, h.late⟩
    apply h.seen.change rfl
    right
    exact (congrFun hfiles p).trans (Function.update_self ..)

theorem During.seen (h : During files p tmp value w) : Seen files p value w := by
  rcases h with ⟨written, h⟩ | h
  · exact h.seen
  · exact h.seen

/-! ### The end of the writes -/

/-- A write that ends the loop. -/
def Written.stops : Written → Bool
  | .count n => n == 0
  | .interrupted => false
  | .failed _ => true

/-- One of the first writes fails, or together they get to the end of the value. -/
def Finishes (k : Kernel) (value : Bytes) (writes : ℕ) : Prop :=
  (∃ i < writes, (k.write i).stops = true) ∨ value.length ≤ ((List.range writes).map fun i => (k.write i).amount).sum

/-- The writes from the given one on neither fail nor get through that many bytes. -/
structure Pending (k : Kernel) (start writes length : ℕ) : Prop where
  goes : ∀ i < writes, (k.write (start + i)).stops = false
  short : ((List.range writes).map fun i => (k.write (start + i)).amount).sum < length

theorem Pending.succ {k : Kernel} {start writes length rest : ℕ} (hstart : (k.write start).stops = false)
    (h : Pending k (start + 1) writes rest) (hrest : (k.write start).amount + rest ≤ length) :
    Pending k start (writes + 1) length where
  goes := by
    intro i hi
    cases i with
    | zero => exact hstart
    | succ i =>
      have hnext := h.goes i (by omega)
      rw [Nat.add_right_comm] at hnext
      exact hnext
  short := by
    have hshift : (List.range writes).map (fun i => (k.write (start + (i + 1))).amount) =
        (List.range writes).map fun i => (k.write (start + 1 + i)).amount := by
      apply List.map_congr_left
      intro i _
      rw [Nat.add_right_comm start 1 i]
      rfl
    rw [List.range_succ_eq_map, List.map_cons, List.map_map, List.sum_cons]
    show (k.write start).amount + ((List.range writes).map fun i => (k.write (start + (i + 1))).amount).sum < length
    rw [hshift]
    have hshort := h.short
    omega

/-- A loop that is cut off had no failure, and did not get to the end. -/
theorem writeLoop_crash {k : Kernel} {writes : ℕ} {rest : Bytes} (h : (writeLoop k tmp writes rest w).1 = .crash) :
    Pending k w.writes writes rest.length := by
  induction writes generalizing rest w with
  | zero =>
    unfold writeLoop at h
    split at h
    · cases h
    · rename_i hrest
      exact ⟨by omega, List.length_pos_iff.mpr hrest⟩
  | succ writes ih =>
    unfold writeLoop at h
    split at h
    · cases h
    · obtain ⟨w', hrun, hwrites⟩ : ∃ w', write k tmp rest w = (.ret (k.write w.writes), w') ∧ w'.writes = w.writes + 1 :=
        ⟨_, rfl, rfl⟩
      rw [bind_of_ret hrun] at h
      rcases hanswer : k.write w.writes with n | _ | reason
      · rw [hanswer] at h
        cases n with
        | zero => cases h
        | succ n =>
          have hnext := ih h
          rw [hwrites] at hnext
          have hdrop : n + 1 < rest.length := by
            have hshort := hnext.short
            rw [List.length_drop] at hshort
            omega
          apply hnext.succ
          · rw [hanswer]
            rfl
          · rw [hanswer, List.length_drop]
            show n + 1 + (rest.length - (n + 1)) ≤ rest.length
            omega
      · rw [hanswer] at h
        have hnext := ih h
        rw [hwrites] at hnext
        apply hnext.succ
        · rw [hanswer]
          rfl
        · rw [hanswer]
          show 0 + rest.length ≤ rest.length
          omega
      · rw [hanswer] at h
        cases h

theorem Pending.not_finishes {k : Kernel} {writes : ℕ} (h : Pending k 0 writes value.length) :
    ¬ Finishes k value writes := by
  rintro (⟨i, hi, hstop⟩ | hend)
  · have hgo := h.goes i hi
    rw [Nat.zero_add, hstop] at hgo
    cases hgo
  · have hshort := h.short
    simp only [Nat.zero_add] at hshort
    omega

/-! ### The whole call -/

theorem fsync_uncut (k : Kernel) : Uncut (fsync k) := fun w => Uncut.lift _ w.note

theorem rename_uncut (k : Kernel) : Uncut (rename k tmp p) := by
  intro w
  show ((Act.lift (io k.rename "replace state") >>= fun _ => Act.modify _ : Prog Unit) w.note).1 ≠ _
  cases io k.rename "replace state" with
  | ok u => exact fun h => by cases h
  | error e => exact fun h => by cases h

theorem syncDirectory_uncut (k : Kernel) : Uncut (syncDirectory k) :=
  Uncut.bind (fun w => Uncut.lift _ w.note) fun _ w => Uncut.lift _ w.note

/-- Nothing but the writes can be cut off. -/
theorem replace_crash {k : Kernel} {writes : ℕ} (h : (replace k writes p tmp value w).1 = .crash) :
    (writeLoop k tmp writes value w).1 = .crash := by
  have hrest : Uncut (do
      fsync k
      rename k tmp p
      syncDirectory k) :=
    (fsync_uncut k).bind fun _ => (rename_uncut k).bind fun _ => syncDirectory_uncut k
  unfold replace at h
  rw [bind_apply] at h
  rcases hloop : writeLoop k tmp writes value w with ⟨o, w'⟩
  rw [hloop] at h
  cases o with
  | ret u => exact absurd h (hrest w')
  | raise e => cases h
  | crash => rfl

/-- The three ways in which a run can come out. -/
inductive Result (k : Kernel) (writes : ℕ) (files : Contents) (p value : Bytes) : Outcome Error Unit → World → Prop
  | returned {w : World} (h : Replaced files p value w) : Result k writes files p value (.ret ()) w
  | raised {e : Error} {w : World} (h : Raised files p value w) : Result k writes files p value (.raise e) w
  | unfinished {tmp : Bytes} {w : World} (h : During files p tmp value w) (hwrites : ¬ Finishes k value writes) :
    Result k writes files p value .crash w

theorem attempt_result (hne : p ≠ tmp) (hnew : files tmp = none) {k : Kernel} {writes : ℕ}
    (h : Writing files p tmp value [] w) (hwrites : w.writes = 0) :
    Result k writes files p value
      (Act.attempt (replace k writes p tmp value) (fun e => do unlink tmp; Act.raise e) w).1
      (Act.attempt (replace k writes p tmp value) (fun e => do unlink tmp; Act.raise e) w).2 := by
  have hreplace := replace_upholds hne (k := k) hnew writes h
  unfold Act.attempt
  rcases hrun : replace k writes p tmp value w with ⟨o, w'⟩
  have hkept := hreplace.kept
  rw [hrun] at hkept
  cases o with
  | ret u => exact .returned (hreplace.post u w' hrun)
  | raise e => exact .raised (hkept.unlink hne hnew)
  | crash =>
    have hloop := writeLoop_crash (replace_crash (by rw [hrun]))
    rw [hwrites] at hloop
    exact .unfinished hkept hloop.not_finishes

theorem temporary_ne (p id : Bytes) : p ≠ temporary p id := by
  intro h
  have hlength := congrArg List.length h
  simp only [temporary, List.length_append] at hlength
  have hdot : (ascii ".").length = 1 := rfl
  omega

theorem openFile_apply (k : Kernel) (tmp : Bytes) (w : World) :
    openFile k tmp w =
      (Act.lift (io (if (w.files tmp).isSome then some (ascii "File exists") else k.create) "create state file") >>=
        fun _ => Act.modify fun w => w.put tmp (some [])) w.note := rfl

/-- The temporary is new and empty, or there is none. -/
theorem openFile_cases (k : Kernel) (h : Unchanged files p value w) (hne : p ≠ tmp) :
    (∃ e, openFile k tmp w = (.raise e, w.note)) ∨
      ∃ w', openFile k tmp w = (.ret (), w') ∧ files tmp = none ∧ Writing files p tmp value [] w' ∧ w'.writes = w.writes := by
  rw [openFile_apply]
  cases hfile : w.files tmp with
  | some content => exact .inl ⟨_, rfl⟩
  | none =>
    cases hcreate : k.create with
    | some reason => exact .inl ⟨_, rfl⟩
    | none =>
      refine .inr ⟨_, rfl, h.files_eq ▸ hfile, ⟨?_, ?_, h.early⟩, rfl⟩
      · apply h.seen.change rfl
        left
        show Function.update w.files tmp (some []) p = files p
        rw [Function.update_of_ne hne, h.files_eq]
      · show Function.update w.files tmp (some []) = _
        rw [h.files_eq]

theorem createDirectories_cases (k : Kernel) (w : World) :
    (∃ e, createDirectories k w = (.raise e, w.note)) ∨ createDirectories k w = (.ret (), w.note) := by
  unfold createDirectories
  rw [call_apply]
  cases k.directories with
  | none => exact .inr rfl
  | some e => exact .inl ⟨e, rfl⟩

theorem randomId_cases (k : Kernel) (w : World) :
    (∃ e, randomId k w = (.raise e, w.note)) ∨ ∃ id, randomId k w = (.ret id, w.note) := by
  unfold randomId
  rw [call_apply]
  cases k.random with
  | ok id => exact .inr ⟨id, rfl⟩
  | error e => exact .inl ⟨e, rfl⟩

theorem atomicWrite_result (k : Kernel) (writes : ℕ) (p value : Bytes) (files : Contents) :
    Result k writes files p value (atomicWrite k writes p value { files := files }).1
      (atomicWrite k writes p value { files := files }).2 := by
  have hstart : Unchanged files p value { files := files } := by
    refine ⟨?_, rfl, rfl⟩
    intro moment hm
    left
    rw [List.mem_singleton.mp hm]
  unfold atomicWrite
  rcases createDirectories_cases k { files := files } with ⟨e, hdir⟩ | hdir
  · rw [bind_of_raise hdir]
    exact .raised (.inl hstart.note)
  rw [bind_of_ret hdir]
  rcases randomId_cases k (World.note { files := files }) with ⟨e, hid⟩ | ⟨id, hid⟩
  · rw [bind_of_raise hid]
    exact .raised (.inl hstart.note.note)
  rw [bind_of_ret hid]
  have hne := temporary_ne p id
  rcases openFile_cases k hstart.note.note hne with ⟨e, hopen⟩ | ⟨w, hopen, hnew, hw, hwrites⟩
  · rw [bind_of_raise hopen]
    exact .raised (.inl hstart.note.note.note)
  rw [bind_of_ret hopen]
  exact attempt_result hne hnew hw hwrites

/-- Every call succeeds; a write takes something, or a signal interrupts it. -/
structure Succeeds (k : Kernel) (id : Bytes) : Prop where
  directories : k.directories = none
  random : k.random = .ok id
  create : k.create = none
  write : ∀ i, (k.write i).stops = false
  sync : k.sync = none
  rename : k.rename = none
  openDirectory : k.openDirectory = none
  syncDirectory : k.syncDirectory = none

/-- Writes that do not fail raise nothing. -/
theorem writeLoop_raises {k : Kernel} (hk : ∀ i, (k.write i).stops = false) {writes : ℕ} {rest : Bytes} (e : Error) :
    (writeLoop k tmp writes rest w).1 ≠ .raise e := by
  induction writes generalizing rest w with
  | zero =>
    unfold writeLoop
    split
    · exact fun h => by cases h
    · exact fun h => by cases h
  | succ writes ih =>
    unfold writeLoop
    split
    · exact fun h => by cases h
    · obtain ⟨w', hrun⟩ : ∃ w', write k tmp rest w = (.ret (k.write w.writes), w') := ⟨_, rfl⟩
      rw [bind_of_ret hrun]
      have hgo := hk w.writes
      rcases hanswer : k.write w.writes with n | _ | reason
      · rw [hanswer] at hgo
        cases n with
        | zero => cases hgo
        | succ n => exact ih
      · exact ih
      · rw [hanswer] at hgo
        cases hgo

/-- The loop returns once its writes get to the end. -/
theorem writeLoop_returns {k : Kernel} (hk : ∀ i, (k.write i).stops = false) {writes : ℕ}
    (hf : Finishes k value writes) (hwrites : w.writes = 0) :
    ∃ w', writeLoop k tmp writes value w = (.ret (), w') := by
  rcases hrun : writeLoop k tmp writes value w with ⟨o, w'⟩
  cases o with
  | ret u => exact ⟨w', rfl⟩
  | raise e =>
    have hraise : (writeLoop k tmp writes value w).1 ≠ .raise e := writeLoop_raises hk e
    exact absurd (by rw [hrun]) hraise
  | crash =>
    have hpending := writeLoop_crash (show (writeLoop k tmp writes value w).1 = .crash by rw [hrun])
    rw [hwrites] at hpending
    exact absurd hf hpending.not_finishes

theorem replace_returns {k : Kernel} {id : Bytes} (hk : Succeeds k id) {writes : ℕ} (hf : Finishes k value writes)
    (hwrites : w.writes = 0) : ∃ w', replace k writes p tmp value w = (.ret (), w') := by
  obtain ⟨w₁, hloop⟩ : ∃ w₁, writeLoop k tmp writes value w = (.ret (), w₁) := writeLoop_returns hk.write hf hwrites
  unfold replace
  rw [bind_of_ret hloop]
  unfold fsync rename syncDirectory
  rw [hk.sync, hk.rename, hk.openDirectory, hk.syncDirectory]
  exact ⟨_, rfl⟩

/-- Where every call succeeds and the name of the temporary is free, the run returns as soon as its writes get to the
end. -/
theorem atomicWrite_returns {k : Kernel} {id : Bytes} (hk : Succeeds k id) (hfree : files (temporary p id) = none)
    {writes : ℕ} (hf : Finishes k value writes) : (atomicWrite k writes p value { files := files }).1 = .ret () := by
  have hdir : createDirectories k ({ files := files } : World) = (.ret (), World.note { files := files }) := by
    unfold createDirectories
    rw [hk.directories]
    rfl
  have hid : randomId k (World.note { files := files }) = (.ret id, (World.note { files := files }).note) := by
    unfold randomId
    rw [hk.random]
    rfl
  obtain ⟨w, hopen, hwrites⟩ : ∃ w, openFile k (temporary p id) (World.note { files := files }).note = (.ret (), w) ∧
      w.writes = 0 := by
    rw [openFile_apply]
    show ∃ w, (Act.lift (io (if (files (temporary p id)).isSome then _ else k.create) _) >>= _) _ = _ ∧ _
    rw [hfree, hk.create]
    exact ⟨_, rfl, rfl⟩
  unfold atomicWrite
  rw [bind_of_ret hdir, bind_of_ret hid, bind_of_ret hopen]
  obtain ⟨w', hreplace⟩ : ∃ w', replace k writes p (temporary p id) value w = (.ret (), w') :=
    replace_returns hk hf hwrites
  unfold Act.attempt
  rw [hreplace]

/-- The target has its old content or the new one at every moment. A run that returns has replaced
it and nothing else, one that raises leaves everything else as it was, and before the rename also the
target. A run ends once a write fails or the writes get to the end. -/
theorem atomicWrite_atomic (k : Kernel) (writes : ℕ) (p value : Bytes) (files : Contents) :
    let run := atomicWrite k writes p value { files := files }
    (∀ moment ∈ run.2.seen ++ [run.2.files], moment p = files p ∨ moment p = some value) ∧
      (run.1 = .ret () → run.2.files = Function.update files p (some value)) ∧
      (∀ e, run.1 = .raise e → (∀ path, path ≠ p → run.2.files path = files path) ∧
        (run.2.renamed = false → run.2.files = files)) ∧
      (Finishes k value writes → run.1 ≠ .crash) := by
  intro run
  have hresult := atomicWrite_result k writes p value files
  change Result k writes files p value run.1 run.2 at hresult
  rcases run with ⟨o, w⟩
  cases hresult with
  | returned h => exact ⟨h.seen, fun _ => h.files_eq, fun _ he => (by cases he), fun _ ho => (by cases ho)⟩
  | unfinished h hwrites =>
    exact ⟨h.seen, fun ho => (by cases ho), fun _ he => (by cases he), fun hf _ => hwrites hf⟩
  | raised h =>
    refine ⟨?_, fun ho => (by cases ho), ?_, fun _ ho => (by cases ho)⟩
    · rcases h with h | h
      · exact h.seen
      · exact h.seen
    · intro e he
      rcases h with h | h
      · exact ⟨fun path _ => congrFun h.files_eq path, fun _ => h.files_eq⟩
      · refine ⟨?_, ?_⟩
        · intro path hpath
          have hsame := congrFun h.files_eq path
          rw [Function.update_of_ne hpath] at hsame
          exact hsame
        · intro hearly
          have hlate := h.late
          change w.renamed = false at hearly
          rw [hearly] at hlate
          cases hlate

end Monutchee.System.AtomicWrite
