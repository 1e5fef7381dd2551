import Monutchee.Lib.Disk
import Monutchee.Lib.Session
import Monutchee.Lib.Simulation
import Monutchee.System.AtomicWrite
import Monutchee.System.World

/-!
# Replacing a file on a disk that forgets (storage.cpp:46-70)

`atomicWrite` once more, on a disk that loses what was not synchronised. The run is the one of
`AtomicWrite`, as far as the files are seen. What a power cut leaves of the journal is its old text or
the new one, whole, at every moment; once the call has returned it is the new one.
-/

namespace Monutchee.System.Durability
open Lib Lib.Act
open AtomicWrite (Kernel Written Noted call createDirectories unfinished call_upholds io temporary)

/-- `seen` are the disks before each call so far. `failed` is `storage_failed_`. -/
structure World where
  disk : Disk Bytes Bytes
  writes : ℕ := 0
  seen : List (Disk Bytes Bytes) := []
  renamed : Bool := false
  failed : Bool := false

abbrev Prog := Act World Error

def World.change (w : World) (f : Disk Bytes Bytes → Disk Bytes Bytes) : World := { w with disk := f w.disk }

def World.note (w : World) : World := { w with seen := w.seen ++ [w.disk] }

instance : Noted World := ⟨World.note⟩

/-! ### atomicWrite -/

/-- The descriptor is the new node. -/
def openFile (k : Kernel) (tmp : Bytes) : Prog ℕ := call do
  let taken ← Act.gets fun w => (w.disk.names tmp).isSome
  Act.lift (io (if taken then some (ascii "File exists") else k.create) "create state file")
  let fd ← Act.gets fun w => w.disk.used
  Act.modify fun w => w.change (·.create tmp [])
  return fd

def write (k : Kernel) (fd : ℕ) (value : Bytes) : Prog Written := call do
  let written ← Act.gets fun w => k.write w.writes
  Act.modify fun w => { w.change (fun d => d.store fd (d.node fd ++ value.take written.amount)) with
    writes := w.writes + 1 }
  return written

def writeLoop (k : Kernel) (fd : ℕ) : ℕ → Bytes → Prog Unit
  | 0, value => if value = [] then pure () else unfinished
  | writes + 1, value =>
    if value = [] then pure () else do
      match ← write k fd value with
      | .interrupted => writeLoop k fd writes value
      | .failed reason => Act.lift (io (some reason) "write state")
      | .count 0 => Act.lift (io (some k.errno) "write state")
      | .count (n + 1) => writeLoop k fd writes (value.drop (n + 1))

def fsync (k : Kernel) (fd : ℕ) : Prog Unit := call do
  Act.lift (io k.sync "sync state")
  Act.modify fun w => w.change (·.sync fd)

def rename (k : Kernel) (tmp p : Bytes) : Prog Unit := call do
  Act.lift (io k.rename "replace state")
  Act.modify fun w => { w.change (·.rename tmp p) with renamed := true }

def syncDirectory (k : Kernel) : Prog Unit := do
  call (Act.lift (io k.openDirectory "open directory"))
  call do
    Act.lift (io k.syncDirectory "sync directory")
    Act.modify fun w => w.change (·.syncNames)

def unlink (tmp : Bytes) : Prog Unit := call (Act.modify fun w => w.change (·.unlink tmp))

def replace (k : Kernel) (writes : ℕ) (p tmp : Bytes) (fd : ℕ) (value : Bytes) : Prog Unit := do
  writeLoop k fd writes value
  fsync k fd
  rename k tmp p
  syncDirectory k

def atomicWrite (k : Kernel) (writes : ℕ) (p value : Bytes) : Prog Unit := do
  createDirectories k
  let id ← AtomicWrite.randomId k
  let tmp := temporary p id
  let fd ← openFile k tmp
  Act.attempt (replace k writes p tmp fd value) fun e => do
    unlink tmp
    Act.raise e

/-! ### The same run as on plain files -/

/-- A program sees the files of the right world. -/
structure Shows (w : World) (v : AtomicWrite.World) : Prop where
  files : w.disk.view = v.files
  writes : w.writes = v.writes
  seen : w.seen.map Disk.view = v.seen
  renamed : w.renamed = v.renamed
  sound : w.disk.Sound

/-- Besides, the temporary is the only name of the open node. -/
structure Opened (tmp : Bytes) (fd : ℕ) (w : World) (v : AtomicWrite.World) : Prop where
  shows : Shows w v
  named : w.disk.names tmp = some fd
  alone : ∀ n, n ≠ tmp → w.disk.names n ≠ some fd

section Simulation
variable {w : World} {v : AtomicWrite.World} {k : Kernel} {tmp p value : Bytes} {fd : ℕ}

theorem Shows.note (h : Shows w v) : Shows w.note v.note where
  files := h.files
  writes := h.writes
  seen := by
    show (w.seen ++ [w.disk]).map Disk.view = v.seen ++ [v.files]
    rw [List.map_append, h.seen, List.map_singleton, h.files]
  renamed := h.renamed
  sound := h.sound

theorem Opened.note (h : Opened tmp fd w v) : Opened tmp fd w.note v.note := ⟨h.shows.note, h.named, h.alone⟩

theorem createDirectories_simulates (h : Shows w v) :
    Simulates (createDirectories k) (createDirectories k) w v (fun _ _ => Shows) Shows := by
  unfold createDirectories
  cases k.directories with
  | none => exact .ret h.note
  | some e => exact .raise h.note

theorem randomId_simulates (h : Shows w v) :
    Simulates (AtomicWrite.randomId k) (AtomicWrite.randomId k) w v (fun id id' w v => id = id' ∧ Shows w v) Shows :=
  Simulates.lift (w := w.note) (v := v.note) (fun _ _ => ⟨rfl, h.note⟩) h.note

theorem openFile_simulates (h : Shows w v) :
    Simulates (openFile k tmp) (AtomicWrite.openFile k tmp) w v (fun fd _ => Opened tmp fd) Shows := by
  have hnote := h.note
  have htaken : (w.note.disk.names tmp).isSome = (v.note.files tmp).isSome := by
    rw [← hnote.files, Disk.view, Option.isSome_map]
  unfold openFile AtomicWrite.openFile
  show Simulates _ _ w.note v.note _ _
  show Simulates (Act.lift (io (if (w.note.disk.names tmp).isSome then _ else _) _) >>= _)
    (Act.lift (io (if (v.note.files tmp).isSome then _ else _) _) >>= _) w.note v.note _ _
  rw [htaken]
  apply Simulates.bind (Simulates.lift (Q := fun _ _ => Shows) (fun _ _ => hnote) hnote)
  intro _ _ w₁ v₁ h₁
  have hbound : ∀ n i, w₁.disk.names n = some i → i < w₁.disk.used := by
    intro n i hi
    exact h₁.sound.bound n i (hi ▸ h₁.sound.shown n)
  apply Matches.ret
  constructor
  · constructor
    · show (w₁.disk.create tmp []).view = _
      rw [Disk.view_create hbound, h₁.files]
      rfl
    · exact h₁.writes
    · exact h₁.seen
    · exact h₁.renamed
    · exact h₁.sound.create
  · exact Function.update_self ..
  · intro n hn hsame
    have hold : (w₁.disk.create tmp []).names n = w₁.disk.names n := Function.update_of_ne hn ..
    have hlt := hbound n w₁.disk.used (hold ▸ hsame)
    omega

theorem write_simulates (h : Opened tmp fd w v) :
    Simulates (write k fd value) (AtomicWrite.write k tmp value) w v (fun a b w v => a = b ∧ Opened tmp fd w v)
      (Opened tmp fd) := by
  have hnote := h.note
  have hshown : v.note.files tmp = some (w.note.disk.node fd) := by
    rw [← hnote.shows.files, Disk.view, hnote.named]
    rfl
  unfold write AtomicWrite.write
  show Simulates _ _ w.note v.note _ _
  apply Matches.ret
  constructor
  · show k.write w.note.writes = k.write v.note.writes
    rw [hnote.shows.writes]
  · constructor
    · constructor
      · show (w.note.disk.store fd _).view = Function.update v.note.files tmp _
        rw [Disk.view_store hnote.named hnote.alone, hnote.shows.files, hshown, Option.map_some]
        dsimp only
        rw [hnote.shows.writes]
      · show w.note.writes + 1 = v.note.writes + 1
        rw [hnote.shows.writes]
      · exact hnote.shows.seen
      · exact hnote.shows.renamed
      · exact hnote.shows.sound.store
    · exact hnote.named
    · exact hnote.alone

theorem writeLoop_simulates {writes : ℕ} (h : Opened tmp fd w v) :
    Simulates (writeLoop k fd writes value) (AtomicWrite.writeLoop k tmp writes value) w v (fun _ _ => Opened tmp fd)
      (Opened tmp fd) := by
  induction writes generalizing value w v with
  | zero =>
    unfold writeLoop AtomicWrite.writeLoop
    split
    · exact Simulates.pure h
    · exact .crash h
  | succ writes ih =>
    unfold writeLoop AtomicWrite.writeLoop
    split
    · exact Simulates.pure h
    · apply Simulates.bind (write_simulates h)
      intro a b w₁ v₁ h₁
      rw [← h₁.1]
      cases a with
      | count n =>
        cases n with
        | zero => exact .raise h₁.2
        | succ n => exact ih h₁.2
      | interrupted => exact ih h₁.2
      | failed reason => exact .raise h₁.2

theorem fsync_simulates (h : Opened tmp fd w v) :
    Simulates (fsync k fd) (AtomicWrite.fsync k) w v (fun _ _ => Opened tmp fd) (Opened tmp fd) := by
  have hnote := h.note
  unfold fsync AtomicWrite.fsync
  show Simulates _ _ w.note v.note _ _
  cases io k.sync "sync state" with
  | error e => exact .raise hnote
  | ok u =>
    have hshows := hnote.shows
    exact .ret ⟨⟨hshows.files, hshows.writes, hshows.seen, hshows.renamed, hshows.sound.sync⟩, hnote.named, hnote.alone⟩

theorem rename_simulates (h : Opened tmp fd w v) :
    Simulates (rename k tmp p) (AtomicWrite.rename k tmp p) w v (fun _ _ => Shows) Shows := by
  have hnote := h.note.shows
  unfold rename AtomicWrite.rename
  show Simulates _ _ w.note v.note _ _
  apply Simulates.bind (Simulates.lift (Q := fun _ _ => Shows) (fun _ _ => hnote) hnote)
  intro _ _ w₁ v₁ h₁
  apply Matches.ret
  constructor
  · show (w₁.disk.rename tmp p).view = Function.update (Function.update v₁.files p (v₁.files tmp)) tmp none
    rw [Disk.view_rename, h₁.files]
  · exact h₁.writes
  · exact h₁.seen
  · rfl
  · exact h₁.sound.rename

theorem syncDirectory_simulates (h : Shows w v) :
    Simulates (syncDirectory k) (AtomicWrite.syncDirectory k) w v (fun _ _ => Shows) Shows := by
  have hopen : Simulates (call (Act.lift (io k.openDirectory "open directory")))
      (call (Act.lift (io k.openDirectory "open directory"))) w v (fun _ _ => Shows) Shows :=
    Simulates.lift (w := w.note) (v := v.note) (fun _ _ => h.note) h.note
  apply Simulates.bind hopen
  intro _ _ w₁ v₁ h₁
  have hnote := h₁.note
  show Simulates _ _ w₁.note v₁.note _ _
  cases io k.syncDirectory "sync directory" with
  | error e => exact .raise hnote
  | ok u => exact .ret ⟨hnote.files, hnote.writes, hnote.seen, hnote.renamed, hnote.sound.syncNames⟩

theorem replace_simulates {writes : ℕ} (h : Opened tmp fd w v) :
    Simulates (replace k writes p tmp fd value) (AtomicWrite.replace k writes p tmp value) w v (fun _ _ => Shows) Shows := by
  have hopened : ∀ w' v', Opened tmp fd w' v' → Shows w' v' := fun _ _ => Opened.shows
  apply Simulates.bind ((writeLoop_simulates h).mono (fun _ _ _ _ h => h) hopened)
  intro _ _ w₁ v₁ h₁
  apply Simulates.bind ((fsync_simulates h₁).mono (fun _ _ _ _ h => h) hopened)
  intro _ _ w₂ v₂ h₂
  apply Simulates.bind (rename_simulates h₂)
  intro _ _ w₃ v₃ h₃
  exact syncDirectory_simulates h₃

theorem unlink_simulates (h : Shows w v) :
    Simulates (unlink tmp) (AtomicWrite.unlink tmp) w v (fun _ _ => Shows) Shows := by
  have hnote := h.note
  apply Matches.ret
  constructor
  · show (w.note.disk.unlink tmp).view = Function.update v.note.files tmp none
    rw [Disk.view_unlink, hnote.files]
  · exact hnote.writes
  · exact hnote.seen
  · exact hnote.renamed
  · exact hnote.sound.unlink

/-- On a sound disk the call ends as on plain files, and shows the same files. -/
theorem atomicWrite_simulates {writes : ℕ} (h : Shows w v) :
    Simulates (atomicWrite k writes p value) (AtomicWrite.atomicWrite k writes p value) w v (fun _ _ => Shows) Shows := by
  apply Simulates.bind (createDirectories_simulates h)
  intro _ _ w₁ v₁ h₁
  apply Simulates.bind (randomId_simulates h₁)
  intro id id' w₂ v₂ h₂
  rw [← h₂.1]
  apply Simulates.bind (openFile_simulates h₂.2)
  intro fd _ w₃ v₃ h₃
  apply Simulates.attempt (replace_simulates h₃) fun _ _ h => h
  intro e w₄ v₄ h₄
  apply Simulates.bind (unlink_simulates h₄)
  intro _ _ w₅ v₅ h₅
  exact Simulates.raise h₅

/-- It returns where it does on plain files. -/
theorem atomicWrite_returns {id : Bytes} (hk : AtomicWrite.Succeeds k id) {files : AtomicWrite.Contents}
    (h : Shows w { files := files }) (hfree : files (temporary p id) = none) {writes : ℕ} (hf : AtomicWrite.Finishes k value writes) :
    ∃ w', atomicWrite k writes p value w = (.ret (), w') := by
  have hplain := AtomicWrite.atomicWrite_returns hk hfree hf
  have hmatch : Matches (fun _ _ => Shows) Shows (atomicWrite k writes p value w)
      (AtomicWrite.atomicWrite k writes p value { files := files }) := atomicWrite_simulates h
  rcases hrun : atomicWrite k writes p value w with ⟨o, w'⟩
  rcases hend : AtomicWrite.atomicWrite k writes p value { files := files } with ⟨o', v'⟩
  rw [hend] at hplain
  rw [hrun, hend, show o' = .ret () from hplain] at hmatch
  cases hmatch with
  | ret _ => exact ⟨w', rfl⟩

end Simulation

/-- The call ends as on plain files, and what a program sees before each of its calls and in the end is the same. -/
theorem atomicWrite_on_files (k : Kernel) (writes : ℕ) (p value : Bytes) {d : Disk Bytes Bytes} (hd : d.Sound) :
    let run := atomicWrite k writes p value { disk := d }
    let plain := AtomicWrite.atomicWrite k writes p value { files := d.view }
    run.1 = plain.1 ∧ run.2.disk.view = plain.2.files ∧ run.2.seen.map Disk.view = plain.2.seen ∧
      run.2.renamed = plain.2.renamed := by
  intro run plain
  have hstart : Shows { disk := d } { files := d.view } := ⟨rfl, rfl, rfl, rfl, hd⟩
  have h : Matches (fun _ _ => Shows) Shows run plain := atomicWrite_simulates hstart
  rcases run with ⟨o, w⟩
  rcases plain with ⟨o', v⟩
  cases h with
  | ret h => exact ⟨rfl, h.files, h.seen, h.renamed⟩
  | raise h => exact ⟨rfl, h.files, h.seen, h.renamed⟩
  | crash h => exact ⟨rfl, h.files, h.seen, h.renamed⟩

/-! ### What a power cut leaves -/

/-- Every name but the temporary has its old content, or is the target with the new one. -/
def Target (d₀ : Disk Bytes Bytes) (p tmp value : Bytes) (d : Disk Bytes Bytes) : Prop :=
  ∀ n, n ≠ tmp → ∀ c, d.Found n c → d₀.Found n c ∨ n = p ∧ c = some value

/-- The temporary is being written; no other name can lead to its node. -/
structure Writing (d₀ : Disk Bytes Bytes) (tmp : Bytes) (fd : ℕ) (written : Bytes) (d : Disk Bytes Bytes) : Prop where
  sound : d.Sound
  named : d.names tmp = some fd
  content : d.node fd = written
  alone : ∀ n, n ≠ tmp → ¬ d.Entry n (some fd)
  found : ∀ n, n ≠ tmp → ∀ c, d.Found n c → d₀.Found n c

/-- The target leads to the synchronised node. -/
structure Renamed (d₀ : Disk Bytes Bytes) (p tmp value : Bytes) (fd : ℕ) (d : Disk Bytes Bytes) : Prop where
  sound : d.Sound
  named : d.names p = some fd
  content : d.node fd = value
  clean : d.clean fd = true
  found : Target d₀ p tmp value d

/-- The directory is synchronised as well. -/
structure Durable (d₀ : Disk Bytes Bytes) (p tmp value : Bytes) (d : Disk Bytes Bytes) : Prop where
  sound : d.Sound
  found : Target d₀ p tmp value d
  replaced : ∀ c, d.Found p c → c = some value

/-- The disks since a moment. -/
structure Past (w₀ : World) (T : Disk Bytes Bytes → Prop) (w : World) : Prop where
  seen : ∃ new, w.seen = w₀.seen ++ new ∧ ∀ d ∈ new ++ [w.disk], T d
  failed : w.failed = w₀.failed

section Crash
variable {d₀ d : Disk Bytes Bytes} {w₀ w : World} {T : Disk Bytes Bytes → Prop} {k : Kernel} {p tmp value written : Bytes}
  {fd : ℕ}

theorem Writing.target (h : Writing d₀ tmp fd written d) : Target d₀ p tmp value d := by
  intro n hn c hc
  exact .inl (h.found n hn c hc)

theorem Writing.append (h : Writing d₀ tmp fd written d) (more : Bytes) :
    Writing d₀ tmp fd (written ++ more) (d.store fd (d.node fd ++ more)) where
  sound := h.sound.store
  named := h.named
  content := by
    rw [h.content]
    exact Function.update_self ..
  alone := h.alone
  found := by
    intro n hn c hc
    exact h.found n hn c ((Disk.found_store (h.alone n hn)).mp hc)

theorem Writing.sync (h : Writing d₀ tmp fd written d) : Writing d₀ tmp fd written (d.sync fd) where
  sound := h.sound.sync
  named := h.named
  content := h.content
  alone := h.alone
  found := by
    intro n hn c hc
    exact h.found n hn c ((Disk.found_sync (h.alone n hn)).mp hc)

/-- Only the sync before it makes a rename safe. -/
theorem Writing.rename (hne : p ≠ tmp) (h : Writing d₀ tmp fd value d) (hclean : d.clean fd = true) :
    Renamed d₀ p tmp value fd (d.rename tmp p) where
  sound := h.sound.rename
  named := (Disk.names_rename hne).trans h.named
  content := h.content
  clean := hclean
  found := by
    intro n hn c hc
    rcases (Disk.found_rename hn).mp hc with hold | ⟨hp, hnew⟩
    · exact .inl (h.found n hn c hold)
    · rw [h.named] at hnew
      obtain ⟨x, hx, hread⟩ := hnew
      right
      exact ⟨hp, by rw [hx, hread hclean, h.content]⟩

theorem Renamed.syncNames (h : Renamed d₀ p tmp value fd d) : Durable d₀ p tmp value d.syncNames where
  sound := h.sound.syncNames
  found := by
    intro n hn c hc
    exact h.found n hn c (h.sound.found_syncNames hc)
  replaced := by
    intro c hc
    have hreads := Disk.found_syncNames.mp hc
    rw [h.named] at hreads
    obtain ⟨x, hx, hread⟩ := hreads
    rw [hx, hread h.clean, h.content]

theorem Target.unlink (h : Target d₀ p tmp value d) : Target d₀ p tmp value (d.unlink tmp) := by
  intro n hn c hc
  exact h n hn c ((Disk.found_unlink hn).mp hc)

theorem Past.refl (h : T w.disk) : Past w T w := ⟨⟨[], by simp, by simpa using h⟩, rfl⟩

theorem Past.now (h : Past w₀ T w) : T w.disk := by
  obtain ⟨new, -, hall⟩ := h.seen
  exact hall w.disk (List.mem_append_right _ (List.mem_singleton_self _))

/-- A call takes note of the disk and may change it. -/
theorem Past.change (h : Past w₀ T w) {w' : World} (hseen : w'.seen = w.seen ++ [w.disk]) (hT : T w'.disk)
    (hfailed : w'.failed = w.failed) : Past w₀ T w' := by
  obtain ⟨new, hnew, hall⟩ := h.seen
  refine ⟨⟨new ++ [w.disk], by rw [hseen, hnew, List.append_assoc], ?_⟩, hfailed.trans h.failed⟩
  intro d hd
  rcases List.mem_append.mp hd with hd | hd
  · exact hall d hd
  · rw [List.mem_singleton.mp hd]
    exact hT

theorem Past.note (h : Past w₀ T w) : Past w₀ T w.note := h.change rfl h.now rfl

theorem writeLoop_upholds {writes : ℕ} {rest : Bytes} (hvalue : written ++ rest = value)
    (hpast : Past w₀ (Target d₀ p tmp value) w) (h : Writing d₀ tmp fd written w.disk) :
    Upholds (Past w₀ (Target d₀ p tmp value)) (writeLoop k fd writes rest) w
      fun _ w' => Writing d₀ tmp fd value w'.disk := by
  induction writes generalizing written rest w with
  | zero =>
    unfold writeLoop
    split
    · rename_i hrest
      rw [hrest, List.append_nil] at hvalue
      exact Upholds.pure hpast (hvalue ▸ h)
    · exact ⟨hpast, fun _ _ hret => by cases hret⟩
  | succ writes ih =>
    unfold writeLoop
    split
    · rename_i hrest
      rw [hrest, List.append_nil] at hvalue
      exact Upholds.pure hpast (hvalue ▸ h)
    · have hwritten := h.append (rest.take (k.write w.writes).amount)
      have hafter : Past w₀ (Target d₀ p tmp value) (write k fd rest w).2 :=
        hpast.change rfl hwritten.target rfl
      have hrun : write k fd rest w = (.ret (k.write w.writes), (write k fd rest w).2) := rfl
      have hdisk : Writing d₀ tmp fd (written ++ rest.take (k.write w.writes).amount) (write k fd rest w).2.disk :=
        hwritten
      apply Upholds.after hrun
      rcases hanswer : k.write w.writes with n | _ | reason
      · rw [hanswer] at hdisk
        cases n with
        | zero => exact Upholds.raise hafter
        | succ n =>
          apply ih _ hafter hdisk
          rw [List.append_assoc]
          show written ++ (rest.take (n + 1) ++ rest.drop (n + 1)) = value
          rw [List.take_append_drop, hvalue]
      · rw [hanswer] at hdisk
        apply ih _ hafter hdisk
        simpa [Written.amount] using hvalue
      · exact Upholds.raise hafter

theorem fsync_upholds (hpast : Past w₀ (Target d₀ p tmp value) w) (h : Writing d₀ tmp fd value w.disk) :
    Upholds (Past w₀ (Target d₀ p tmp value)) (fsync k fd) w
      fun _ w' => Writing d₀ tmp fd value w'.disk ∧ w'.disk.clean fd = true := by
  apply call_upholds
  have hnote := hpast.note
  apply Upholds.bind (Upholds.lift (Q := fun _ w' => w' = w.note) hnote fun _ _ => rfl)
  intro _ w₁ _ h₁
  rw [h₁]
  have hsynced : Past w₀ (Target d₀ p tmp value) (w.note.change (·.sync fd)) :=
    hpast.change rfl h.sync.target rfl
  exact Upholds.modify hsynced ⟨h.sync, Function.update_self ..⟩

theorem rename_upholds (hne : p ≠ tmp) (hpast : Past w₀ (Target d₀ p tmp value) w)
    (h : Writing d₀ tmp fd value w.disk) (hclean : w.disk.clean fd = true) :
    Upholds (Past w₀ (Target d₀ p tmp value)) (rename k tmp p) w
      fun _ w' => Renamed d₀ p tmp value fd w'.disk := by
  apply call_upholds
  apply Upholds.bind (Upholds.lift (Q := fun _ w' => w' = w.note) hpast.note fun _ _ => rfl)
  intro _ w₁ _ h₁
  rw [h₁]
  have hrenamed := h.rename hne hclean
  apply Upholds.modify
  · exact hpast.change rfl hrenamed.found rfl
  · exact hrenamed

theorem syncDirectory_upholds (hpast : Past w₀ (Target d₀ p tmp value) w) (h : Renamed d₀ p tmp value fd w.disk) :
    Upholds (Past w₀ (Target d₀ p tmp value)) (syncDirectory k) w fun _ w' => Durable d₀ p tmp value w'.disk := by
  have hopen : Upholds (Past w₀ (Target d₀ p tmp value)) (call (Act.lift (io k.openDirectory "open directory"))) w
      fun _ w' => w' = w.note := call_upholds (Upholds.lift hpast.note fun _ _ => rfl)
  apply Upholds.bind hopen
  intro _ w₁ hpast₁ h₁
  rw [h₁] at hpast₁ ⊢
  apply call_upholds
  apply Upholds.bind (Upholds.lift (Q := fun _ w' => w' = w.note.note) hpast₁.note fun _ _ => rfl)
  intro _ w₂ _ h₂
  rw [h₂]
  have hdurable := h.syncNames
  apply Upholds.modify
  · exact hpast₁.change rfl hdurable.found rfl
  · exact hdurable

theorem replace_upholds (hne : p ≠ tmp) {writes : ℕ} (hpast : Past w₀ (Target d₀ p tmp value) w)
    (h : Writing d₀ tmp fd [] w.disk) :
    Upholds (Past w₀ (Target d₀ p tmp value)) (replace k writes p tmp fd value) w
      fun _ w' => Durable d₀ p tmp value w'.disk := by
  apply Upholds.bind (writeLoop_upholds (List.nil_append value) hpast h)
  intro _ w₁ p₁ h₁
  apply Upholds.bind (fsync_upholds p₁ h₁)
  intro _ w₂ p₂ h₂
  apply Upholds.bind (rename_upholds hne p₂ h₂.1 h₂.2)
  intro _ w₃ p₃ h₃
  exact syncDirectory_upholds p₃ h₃

theorem Target.refl : Target d₀ p tmp value d₀ := fun _ _ _ hc => .inl hc

theorem writing_create (h : d₀.Sound) : Writing d₀ tmp d₀.used [] (d₀.create tmp []) where
  sound := h.create
  named := Function.update_self ..
  content := Function.update_self ..
  alone := by
    intro n hn hentry
    exact h.free ((Disk.entry_create hn).mp hentry)
  found := by
    intro n hn c hc
    exact (Disk.found_create h hn).mp hc

theorem openFile_upholds (hs : d₀.Sound) (hpast : Past w₀ (Target d₀ p tmp value) w) (hw : w.disk = d₀) :
    Upholds (Past w₀ (Target d₀ p tmp value)) (openFile k tmp) w fun fd w' => Writing d₀ tmp fd [] w'.disk := by
  apply call_upholds
  apply Upholds.get
  apply Upholds.bind (Upholds.lift (Q := fun _ w' => w' = w.note) hpast.note fun _ _ => rfl)
  intro _ w₁ _ h₁
  rw [h₁]
  apply Upholds.get
  have hwriting : Writing d₀ tmp w.note.disk.used [] (w.note.change (·.create tmp [])).disk := by
    show Writing d₀ tmp w.disk.used [] (w.disk.create tmp [])
    rw [hw]
    exact writing_create hs
  have hpast₂ : Past w₀ (Target d₀ p tmp value) (w.note.change (·.create tmp [])) :=
    hpast.change rfl hwriting.target rfl
  apply Upholds.bind (Upholds.modify (Q := fun _ w' => w' = w.note.change (·.create tmp [])) hpast₂ rfl)
  intro _ w₂ hpast₂ h₂
  rw [h₂] at hpast₂ ⊢
  exact Upholds.pure hpast₂ hwriting

/-- The name that a run gives its temporary. -/
def temporaryOf (k : Kernel) (p : Bytes) : Bytes :=
  temporary p (match k.random with
    | .ok id => id
    | .error _ => [])

/-- At every moment a power cut leaves the old target or the new one, after the return only the new one, and
of other names what it would have left of them before. -/
theorem atomicWrite_upholds (k : Kernel) (writes : ℕ) (p value : Bytes) (hs : w₀.disk.Sound) :
    Upholds (Past w₀ (Target w₀.disk p (temporaryOf k p) value)) (atomicWrite k writes p value) w₀
      fun _ w' => Durable w₀.disk p (temporaryOf k p) value w'.disk := by
  have hstart : Past w₀ (Target w₀.disk p (temporaryOf k p) value) w₀ := Past.refl Target.refl
  have hdirectories : Upholds (Past w₀ (Target w₀.disk p (temporaryOf k p) value)) (createDirectories k) w₀
      fun _ w' => w'.disk = w₀.disk := by
    apply call_upholds
    cases k.directories with
    | none => exact Upholds.pure hstart.note rfl
    | some e => exact Upholds.raise hstart.note
  apply Upholds.bind hdirectories
  intro _ w₁ p₁ h₁
  have hrandom : Upholds (Past w₀ (Target w₀.disk p (temporaryOf k p) value)) (AtomicWrite.randomId k) w₁
      fun id w' => temporary p id = temporaryOf k p ∧ w'.disk = w₀.disk := by
    apply call_upholds
    apply Upholds.lift p₁.note
    intro id hid
    exact ⟨by rw [temporaryOf, hid], h₁⟩
  apply Upholds.bind hrandom
  intro id w₂ p₂ h₂
  rw [h₂.1]
  apply Upholds.bind (openFile_upholds hs p₂ h₂.2)
  intro fd w₃ p₃ h₃
  have hne : p ≠ temporaryOf k p := AtomicWrite.temporary_ne p _
  apply Upholds.attempt (replace_upholds hne p₃ h₃)
  intro e w₄ p₄ _
  have hunlink : Upholds (Past w₀ (Target w₀.disk p (temporaryOf k p) value)) (unlink (temporaryOf k p)) w₄
      fun _ _ => True := by
    apply call_upholds
    exact Upholds.modify (p₄.change rfl p₄.now.unlink rfl) trivial
  apply Upholds.bind hunlink
  intro _ w₅ p₅ _
  exact Upholds.raise p₅

end Crash

/-- At every moment of a call, whatever the system answers, a power cut leaves the target whole, with its old
content or the new one, and other files as it would have left them before. Once the call has returned the target
has the new content. -/
theorem atomicWrite_survives (k : Kernel) (writes : ℕ) (p value : Bytes) {d : Disk Bytes Bytes} (hd : d.Sound) :
    let run := atomicWrite k writes p value { disk := d }
    (∀ moment ∈ run.2.seen ++ [run.2.disk], ∀ files, moment.Remains files →
      ((∃ old, d.Remains old ∧ files p = old p) ∨ files p = some value) ∧
        ∀ n, n ≠ p → n ≠ temporaryOf k p → ∃ old, d.Remains old ∧ files n = old n) ∧
      (run.1 = .ret () → ∀ files, run.2.disk.Remains files → files p = some value) := by
  intro run
  have h := atomicWrite_upholds k writes p value (show ({ disk := d } : World).disk.Sound from hd)
  have hne : p ≠ temporaryOf k p := AtomicWrite.temporary_ne p _
  constructor
  · obtain ⟨new, hnew, hall⟩ := h.kept.seen
    have hseen : run.2.seen = new := hnew
    intro moment hm files hfiles
    rw [hseen] at hm
    have htarget := hall moment hm
    constructor
    · rcases htarget p hne _ (hfiles.found p) with hold | ⟨-, hvalue⟩
      · obtain ⟨old, hold, heq⟩ := Disk.found_remains hold
        exact .inl ⟨old, hold, heq.symm⟩
      · exact .inr hvalue
    · intro n hp htmp
      rcases htarget n htmp _ (hfiles.found n) with hold | ⟨heq, -⟩
      · obtain ⟨old, hold, heq⟩ := Disk.found_remains hold
        exact ⟨old, hold, heq.symm⟩
      · exact absurd heq hp
  · intro hret files hfiles
    exact (h.post () _ (Act.run_eq hret)).replaced _ (hfiles.found p)

namespace Sample

def kernel : Kernel where
  directories := none
  random := .ok (ascii "0")
  create := none
  write _ := .count 2
  sync := none
  rename := none
  openDirectory := none
  syncDirectory := none
  errno := []

def path : Bytes := ascii "state.json"

/-- One file with its content, all of it durable. -/
def disk : Disk Bytes Bytes where
  node _ := ascii "old"
  clean _ := true
  used := 1
  names n := if n = path then some 0 else none
  durable n := if n = path then some 0 else none
  pending := []

theorem disk_sound : disk.Sound := by
  constructor
  · intro n i hn
    rcases hn with hdurable | hpending
    · unfold disk at hdurable
      dsimp only at hdurable
      split at hdurable
      · injection hdurable with hi
        rw [hi]
        exact Nat.one_pos
      · cases hdurable
    · cases hpending
  · intro n
    exact .inl rfl

end Sample

theorem atomicWrite_on_files_replaced :
    (AtomicWrite.atomicWrite Sample.kernel 2 Sample.path (ascii "new") { files := Sample.disk.view }).1 = .ret () ∧
      (atomicWrite Sample.kernel 2 Sample.path (ascii "new") { disk := Sample.disk }).2.disk.view =
        (AtomicWrite.atomicWrite Sample.kernel 2 Sample.path (ascii "new") { files := Sample.disk.view }).2.files := by
  have h := atomicWrite_on_files Sample.kernel 2 Sample.path (ascii "new") Sample.disk_sound
  exact ⟨h.1.symm.trans rfl, h.2.1⟩

theorem atomicWrite_survives_replaced :
    (atomicWrite Sample.kernel 2 Sample.path (ascii "new") { disk := Sample.disk }).1 = .ret () ∧
      ∀ files, (atomicWrite Sample.kernel 2 Sample.path (ascii "new") { disk := Sample.disk }).2.disk.Remains files →
        files Sample.path = some (ascii "new") := by
  have hret : (atomicWrite Sample.kernel 2 Sample.path (ascii "new") { disk := Sample.disk }).1 = .ret () := rfl
  exact ⟨hret, (atomicWrite_survives Sample.kernel 2 Sample.path (ascii "new") Sample.disk_sound).2 hret⟩

end Monutchee.System.Durability
