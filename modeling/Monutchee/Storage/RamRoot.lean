import Mathlib.Data.List.Perm.Subperm
import Monutchee.Lib.Act
import Monutchee.Lib.Json

/-!
# The RAM root (make-ram-root.py:21-57)

`elf` copies an executable or a library of the product root into the output and then its program
interpreter and the libraries it names, each under a destination that is marked before the file is
read. `source` follows symbolic links inside the product root. What `readelf` prints for a file, and
whether it and the copy succeed, are part of the root, which has finitely many files.
-/

namespace Monutchee.Storage.RamRoot
open Monutchee.Lib Monutchee.Lib.Act

/-! ### The product root -/

/-- What is below the root. -/
inductive Entry where
  | link (target : Text)
  | file
  | other
  deriving DecidableEq

structure Root where
  look : Text → Entry
  readelf : Text → Except Text Text
  /-- The directory and the copy for a destination, after the copies before it. -/
  copy : List (Text × Text) → Text → Text → Except Text Unit
  outputs : List Text
  finite : ∀ src data, look src = .file → readelf src = .ok data → data ∈ outputs

/-! ### Paths of the interpreter -/

/-- The parts that `Path` keeps. -/
def pathParts (path : Text) : List Text := (path.splitOn 47).filter fun part => part ≠ [] && part ≠ text "."

def pathRoot (path : Text) : Text :=
  if (text "//").isPrefixOf path && !(text "///").isPrefixOf path then text "//"
  else if (text "/").isPrefixOf path then text "/"
  else []

def pathText (start : Text) (parts : List Text) : Text :=
  if start = [] ∧ parts = [] then text "." else start ++ [47].intercalate parts

/-- `str(Path(path).parent / link)`, for a relative link -/
def sibling (path link : Text) : Text := pathText (pathRoot path) ((pathParts path).dropLast ++ pathParts link)

/-- `os.path.normpath` -/
def normpath (path : Text) : Text :=
  pathText (pathRoot path) ((pathParts path).foldl (fun parts part =>
    if part ≠ text ".." || (pathRoot path = [] && parts = []) || parts.getLast? = some (text "..") then parts ++ [part]
    else parts.dropLast) [])

/-- `path.lstrip('/')` -/
def lstrip (path : Text) : Text := path.dropWhile (· = 47)

/-! ### What readelf prints -/

/-- A literal and at least one character other than a closing bracket. -/
def field (literal s : Text) : Option Text :=
  if literal.isPrefixOf s then
    let value := (s.drop literal.length).takeWhile (· ≠ 93)
    if value = [] then none else some value
  else none

def INTERPRETER : Text := text "Requesting program interpreter: "
def SHARED : Text := text "Shared library: ["

/-- `re.search` -/
def interpreterOf : Text → Option Text
  | [] => none
  | c :: rest =>
    match field INTERPRETER (c :: rest) with
    | some value => some value
    | none => interpreterOf rest

/-- `re.findall`, with the number of characters that the last match still takes. -/
def neededFrom : ℕ → Text → List Text
  | _, [] => []
  | skip + 1, _ :: rest => neededFrom skip rest
  | 0, c :: rest =>
    match field SHARED (c :: rest) with
    | some value =>
      -- the match ends with the bracket
      if ((c :: rest).drop (SHARED.length + value.length)).head? = some 93 then
        value :: neededFrom (SHARED.length + value.length) rest
      else neededFrom 0 rest
    | none => neededFrom 0 rest

def neededOf (data : Text) : List Text := neededFrom 0 data

/-! ### source and elf -/

def sourceLoop (root : Root) : ℕ → Text → Except Text Text
  | 0, path => .error (text "symlink loop: " ++ path)
  | attempts + 1, path =>
    match root.look (lstrip path) with
    | .link target =>
      sourceLoop root attempts (normpath (if (text "/").isPrefixOf target then target else sibling path target))
    | .file => .ok (lstrip path)
    | .other => .error (text "missing rootfs ELF dependency: " ++ path)

def source (root : Root) (path : Text) : Except Text Text := sourceLoop root 16 path

/-- `output` holds what was copied: the destination, and the file of the product root. The links
`lib`, `lib64` and `usr/lib64` of the output are there before, so that a destination is looked up
where it was copied to. -/
structure World where
  copied : List Text := []
  output : List (Text × Text) := []

abbrev Prog := Act World Text

def BUSYBOX : Text := text "/bin/busybox"
def LIBRARY : Text := text "/usr/lib/"
def PREFIXES : List Text := [LIBRARY, text "/lib/", text "/lib64/", text "/usr/lib64/"]

/-- The first prefix under which the name is found. -/
def resolve (root : Root) (needed : Text) : Option Text :=
  (PREFIXES.map (· ++ needed)).find? fun path => (source root path).isOk

def loader (visit : Text → Text → Prog Unit) (data : Text) : Prog Unit :=
  match interpreterOf data with
  | some interpreter => visit interpreter interpreter
  | none => pure ()

def library (visit : Text → Text → Prog Unit) (root : Root) (needed : Text) : Prog Unit :=
  match resolve root needed with
  | some path => visit path (LIBRARY ++ needed)
  | none => Act.raise (text "unresolved BusyBox dependency: " ++ needed)

/-- The interpreter and the libraries, each by `visit`. -/
def dependencies (visit : Text → Text → Prog Unit) (root : Root) (data : Text) : Prog Unit := do
  loader visit data
  Act.each (library visit root) (neededOf data)

/-- The depth bounds the recursion. -/
def elf (root : Root) : ℕ → Text → Text → Prog Unit
  | 0, _, _ => fun w => (.crash, w)
  | depth + 1, path, destination => do
    let seen ← Act.gets fun w => decide (destination ∈ w.copied)
    if seen then pure ()
    else do
      Act.modify fun w => { w with copied := w.copied ++ [destination] }
      let src ← Act.lift (source root path)
      let output ← Act.gets World.output
      Act.lift (root.copy output destination src)
      Act.modify fun w => { w with output := w.output ++ [(destination, src)] }
      let data ← Act.lift (root.readelf src)
      dependencies (elf root depth) root data

/-! ### The closure -/

/-- A destination of the closure and the file for it. -/
inductive Reached (root : Root) : Text → Text → Prop
  | start {src : Text} (hs : source root BUSYBOX = .ok src) : Reached root BUSYBOX src
  | interpreter {destination src data path src' : Text} (h : Reached root destination src)
      (hd : root.readelf src = .ok data) (hi : interpreterOf data = some path)
      (hs : source root path = .ok src') : Reached root path src'
  | needed {destination src data name path src' : Text} (h : Reached root destination src)
      (hd : root.readelf src = .ok data) (hn : name ∈ neededOf data) (hp : resolve root name = some path)
      (hs : source root path = .ok src') : Reached root (LIBRARY ++ name) src'

/-- A reachable interpreter, or a reachable name under each of the prefixes, is not found. -/
def Dangling (root : Root) : Prop :=
  ∃ destination src data, Reached root destination src ∧ root.readelf src = .ok data ∧
    ((∃ path what, interpreterOf data = some path ∧ source root path = .error what) ∨
      ∃ name ∈ neededOf data, ∀ start ∈ PREFIXES, ∃ what, source root (start ++ name) = .error what)

/-- BusyBox itself is not found, or something that is reachable. -/
def Unresolved (root : Root) : Prop := (∃ what, source root BUSYBOX = .error what) ∨ Dangling root

/-- A file of the closure cannot be copied, or `readelf` fails on it. -/
def Refused (root : Root) : Prop :=
  ∃ destination src, Reached root destination src ∧
    ((∃ output what, root.copy output destination src = .error what) ∨ ∃ what, root.readelf src = .error what)

/-- The output holds the closure, and for each of its files the interpreter and the libraries. -/
structure Complete (root : Root) (w : World) : Prop where
  closure : ∀ destination src, Reached root destination src → (destination, src) ∈ w.output
  interpreter : ∀ c ∈ w.output, ∀ data path, root.readelf c.2 = .ok data → interpreterOf data = some path →
    ∃ src, (path, src) ∈ w.output
  needed : ∀ c ∈ w.output, ∀ data, root.readelf c.2 = .ok data → ∀ name ∈ neededOf data,
    ∃ src, (LIBRARY ++ name, src) ∈ w.output
  reached : ∀ c ∈ w.output, Reached root c.1 c.2 ∧ ∃ data, root.readelf c.2 = .ok data

/-! ### One file for each destination -/

variable {root : Root}

theorem resolve_first {name src : Text} (hs : source root (LIBRARY ++ name) = .ok src) :
    resolve root name = some (LIBRARY ++ name) := by
  have hfound : (source root (LIBRARY ++ name)).isOk = true := by
    rw [hs]
    rfl
  unfold resolve PREFIXES
  rw [List.map_cons, List.find?_cons, hfound]

theorem resolve_found {name path : Text} (hp : resolve root name = some path) :
    ∃ src, source root path = .ok src := by
  have hfound := List.find?_some hp
  cases hs : source root path with
  | ok src => exact ⟨src, rfl⟩
  | error what =>
    rw [hs] at hfound
    cases hfound

theorem resolve_missing {name : Text} (hp : resolve root name = none) (start : Text) (hstart : start ∈ PREFIXES) :
    ∃ what, source root (start ++ name) = .error what := by
  have hmissing := List.find?_eq_none.mp hp (start ++ name) (List.mem_map_of_mem hstart)
  cases hs : source root (start ++ name) with
  | ok src =>
    rw [hs] at hmissing
    exact absurd rfl hmissing
  | error what => exact ⟨what, rfl⟩

/-- A destination is the path of its file, or the name that was looked up under the prefixes. -/
theorem Reached.origin {destination src : Text} (h : Reached root destination src) :
    source root destination = .ok src ∨
      ∃ name path, destination = LIBRARY ++ name ∧ resolve root name = some path ∧ source root path = .ok src := by
  cases h with
  | start hs => exact .inl hs
  | interpreter h hd hi hs => exact .inl hs
  | needed h hd hn hp hs => exact .inr ⟨_, _, rfl, hp, hs⟩

theorem origin_named {name path src src' : Text} (hs : source root (LIBRARY ++ name) = .ok src)
    (hp : resolve root name = some path) (hs' : source root path = .ok src') : src = src' := by
  rw [resolve_first hs] at hp
  cases hp
  rw [hs] at hs'
  cases hs'
  rfl

theorem Reached.unique {destination src src' : Text} (h : Reached root destination src)
    (h' : Reached root destination src') : src = src' := by
  rcases h.origin with hs | ⟨name, path, hname, hp, hs⟩
  · rcases h'.origin with hs' | ⟨name', path', hname', hp', hs'⟩
    · rw [hs] at hs'
      cases hs'
      rfl
    · rw [hname'] at hs
      exact origin_named hs hp' hs'
  · rcases h'.origin with hs' | ⟨name', path', hname', hp', hs'⟩
    · rw [hname] at hs'
      exact (origin_named hs' hp hs).symm
    · have hsame : name = name' := List.append_cancel_left (hname.symm.trans hname')
      rw [hsame, hp'] at hp
      cases hp
      rw [hs] at hs'
      cases hs'
      rfl

/-! ### What a call keeps -/

/-- Every destination that the recursion can ask for. -/
def destinations (root : Root) : List Text :=
  BUSYBOX :: root.outputs.flatMap fun data =>
    (interpreterOf data).toList ++ (neededOf data).map fun needed => LIBRARY ++ needed

theorem interpreter_known {src data path : Text} (hf : root.look src = .file) (hd : root.readelf src = .ok data)
    (hi : interpreterOf data = some path) : path ∈ destinations root := by
  apply List.mem_cons_of_mem
  rw [List.mem_flatMap]
  exact ⟨data, root.finite src data hf hd, List.mem_append_left _ (by rw [hi]; exact List.mem_singleton_self path)⟩

theorem needed_known {src data name : Text} (hf : root.look src = .file) (hd : root.readelf src = .ok data)
    (hn : name ∈ neededOf data) : LIBRARY ++ name ∈ destinations root := by
  apply List.mem_cons_of_mem
  rw [List.mem_flatMap]
  exact ⟨data, root.finite src data hf hd, List.mem_append_right _ (List.mem_map_of_mem hn)⟩

theorem sourceLoop_file {attempts : ℕ} {path src : Text} (hs : sourceLoop root attempts path = .ok src) :
    root.look src = .file := by
  induction attempts generalizing path with
  | zero => cases hs
  | succ attempts ih =>
    unfold sourceLoop at hs
    split at hs
    · exact ih hs
    · rename_i hf
      cases hs
      exact hf
    · cases hs

/-- The marks are among the finitely many destinations, each once, and what was copied is of the closure. -/
structure Sound (root : Root) (w : World) : Prop where
  nodup : w.copied.Nodup
  known : ∀ destination ∈ w.copied, destination ∈ destinations root
  reached : ∀ c ∈ w.output, Reached root c.1 c.2

theorem Sound.marks (h : Sound root w) : w.copied.length ≤ (destinations root).length :=
  (List.subperm_of_subset h.nodup h.known).length_le

/-- The interpreter and the libraries of a copied file are marked. -/
def Linked (root : Root) (w : World) (src : Text) : Prop :=
  ∃ data, root.readelf src = .ok data ∧ (∀ path, interpreterOf data = some path → path ∈ w.copied) ∧
    ∀ name ∈ neededOf data, LIBRARY ++ name ∈ w.copied

/-- What a call adds: each new mark has its file in the output, and each new file is linked. -/
structure Grows (root : Root) (w w' : World) : Prop where
  marked : w.copied <+: w'.copied
  kept : w.output <+: w'.output
  copied : ∀ destination ∈ w'.copied, destination ∉ w.copied → ∃ src, (destination, src) ∈ w'.output
  linked : ∀ c ∈ w'.output, c ∉ w.output → Linked root w' c.2

theorem Linked.mono {w w' : World} {src : Text} (h : Linked root w src) (hw : w.copied <+: w'.copied) :
    Linked root w' src := by
  obtain ⟨data, hd, hi, hn⟩ := h
  exact ⟨data, hd, fun path hp => hw.subset (hi path hp), fun name hname => hw.subset (hn name hname)⟩

theorem Grows.refl (w : World) : Grows root w w where
  marked := List.prefix_rfl
  kept := List.prefix_rfl
  copied _ h hnot := absurd h hnot
  linked _ h hnot := absurd h hnot

theorem Grows.trans {w w₁ w₂ : World} (h₁ : Grows root w w₁) (h₂ : Grows root w₁ w₂) : Grows root w w₂ where
  marked := h₁.marked.trans h₂.marked
  kept := h₁.kept.trans h₂.kept
  copied := by
    intro destination hd hnot
    by_cases hmid : destination ∈ w₁.copied
    · obtain ⟨src, hsrc⟩ := h₁.copied destination hmid hnot
      exact ⟨src, h₂.kept.subset hsrc⟩
    · exact h₂.copied destination hd hmid
  linked := by
    intro c hc hnot
    by_cases hmid : c ∈ w₁.output
    · exact (h₁.linked c hmid hnot).mono h₂.marked
    · exact h₂.linked c hc hmid

/-- A destination that the closure asks for: its file is of the closure, and a failure to find one
is one of `Unresolved`. -/
structure Wanted (root : Root) (path destination : Text) : Prop where
  known : destination ∈ destinations root
  found : ∀ src, source root path = .ok src → Reached root destination src
  missing : ∀ what, source root path = .error what → Unresolved root

/-- Room for the marks that are still to come. -/
structure Ready (root : Root) (depth : ℕ) (w : World) : Prop where
  sound : Sound root w
  room : (destinations root).length < depth + w.copied.length

/-- What a visit of a wanted destination does. -/
def Visits (root : Root) (depth : ℕ) (visit : Text → Text → Prog Unit) : Prop :=
  ∀ path destination w, Wanted root path destination → Ready root depth w →
    Ends (visit path destination) w
      (fun _ w' => Sound root w' ∧ Grows root w w' ∧ destination ∈ w'.copied)
      (fun _ _ => Unresolved root ∨ Refused root)

theorem Ready.grows {depth : ℕ} {w w' : World} (h : Ready root depth w) (hs : Sound root w') (hg : Grows root w w') :
    Ready root depth w' := by
  refine ⟨hs, ?_⟩
  have hlength := hg.marked.length_le
  have hroom := h.room
  omega

/-! ### The interpreter and the libraries of one file -/

section
variable {destination src data : Text}

theorem interpreter_wanted {path : Text} (h : Reached root destination src) (hf : root.look src = .file)
    (hd : root.readelf src = .ok data) (hi : interpreterOf data = some path) : Wanted root path path where
  known := interpreter_known hf hd hi
  found _ hs := Reached.interpreter h hd hi hs
  missing what hs := .inr ⟨destination, src, data, h, hd, .inl ⟨path, what, hi, hs⟩⟩

theorem needed_wanted {name path : Text} (h : Reached root destination src) (hf : root.look src = .file)
    (hd : root.readelf src = .ok data) (hn : name ∈ neededOf data) (hp : resolve root name = some path) :
    Wanted root path (LIBRARY ++ name) where
  known := needed_known hf hd hn
  found _ hs := Reached.needed h hd hn hp hs
  missing what hs := by
    obtain ⟨src', hs'⟩ := resolve_found hp
    rw [hs] at hs'
    cases hs'

variable {depth : ℕ} {visit : Text → Text → Prog Unit} (hvisit : Visits root depth visit) {w : World}
  (hw : Ready root depth w) (h : Reached root destination src) (hf : root.look src = .file)
  (hd : root.readelf src = .ok data)
include hvisit hw h hf hd

theorem loader_ends :
    Ends (loader visit data) w
      (fun _ w' => Sound root w' ∧ Grows root w w' ∧ ∀ path, interpreterOf data = some path → path ∈ w'.copied)
      (fun _ _ => Unresolved root ∨ Refused root) := by
  unfold loader
  cases hi : interpreterOf data with
  | none => exact Ends.ret (pure_apply () w) ⟨hw.sound, Grows.refl w, by simp⟩
  | some path =>
    apply (hvisit path path w (interpreter_wanted h hf hd hi) hw).mono
    · intro _ w' ⟨hs, hg, hmem⟩
      refine ⟨hs, hg, ?_⟩
      intro path' hp
      cases hp
      exact hmem
    · intro _ _ he
      exact he

theorem library_ends {name : Text} (hn : name ∈ neededOf data) :
    Ends (library visit root name) w
      (fun _ w' => Sound root w' ∧ Grows root w w' ∧ LIBRARY ++ name ∈ w'.copied)
      (fun _ _ => Unresolved root ∨ Refused root) := by
  unfold library
  cases hp : resolve root name with
  | some path => exact hvisit path (LIBRARY ++ name) w (needed_wanted h hf hd hn hp) hw
  | none =>
    exact Ends.raised (raise_apply _ w) (.inl (.inr ⟨destination, src, data, h, hd, .inr ⟨name, hn, resolve_missing hp⟩⟩))

theorem dependencies_ends :
    Ends (dependencies visit root data) w
      (fun _ w' => Sound root w' ∧ Grows root w w' ∧ Linked root w' src)
      (fun _ _ => Unresolved root ∨ Refused root) := by
  apply Ends.bind (loader_ends hvisit hw h hf hd)
  intro _ w₁ ⟨hs₁, hg₁, hi₁⟩
  -- the invariant is about the names that are done
  have hlibraries : Ends (Act.each (library visit root) (neededOf data)) w₁
      (fun _ w' => Sound root w' ∧ Grows root w₁ w' ∧ ∀ name ∈ [] ++ neededOf data, LIBRARY ++ name ∈ w'.copied)
      (fun _ _ => Unresolved root ∨ Refused root) := by
    apply Ends.each_mem (fun done w' => Sound root w' ∧ Grows root w₁ w' ∧ ∀ name ∈ done, LIBRARY ++ name ∈ w'.copied)
    · intro done name w' hn ⟨hs, hg, hdone⟩
      apply (library_ends hvisit (hw.grows hs (hg₁.trans hg)) h hf hd hn).mono
      · intro _ w₂ ⟨hs₂, hg₂, hmem⟩
        refine ⟨hs₂, hg.trans hg₂, ?_⟩
        intro name' hname'
        rw [List.mem_append, List.mem_singleton] at hname'
        cases hname' with
        | inl hold => exact hg₂.marked.subset (hdone name' hold)
        | inr hnew => exact hnew ▸ hmem
      · intro _ _ he
        exact he
    · exact ⟨hs₁, Grows.refl w₁, by simp⟩
  apply hlibraries.mono
  · intro _ w₂ ⟨hs₂, hg₂, hn₂⟩
    refine ⟨hs₂, hg₁.trans hg₂, data, hd, ?_, hn₂⟩
    intro path hp
    exact hg₂.marked.subset (hi₁ path hp)
  · intro _ _ he
    exact he
end

/-! ### elf -/

def World.mark (w : World) (destination : Text) : World := { w with copied := w.copied ++ [destination] }

def World.place (w : World) (destination src : Text) : World := { w with output := w.output ++ [(destination, src)] }

variable {destination src : Text} {w : World}

theorem Sound.mark (h : Sound root w) (hnew : destination ∉ w.copied) (hk : destination ∈ destinations root) :
    Sound root (w.mark destination) where
  nodup := by
    show (w.copied ++ [destination]).Nodup
    rw [List.nodup_append]
    refine ⟨h.nodup, List.nodup_singleton destination, ?_⟩
    intro d hd d' hd'
    rw [List.mem_singleton] at hd'
    intro heq
    exact hnew (hd' ▸ heq ▸ hd)
  known d hd := by
    cases List.mem_append.mp hd with
    | inl hold => exact h.known d hold
    | inr hlast => exact List.mem_singleton.mp hlast ▸ hk
  reached := h.reached

theorem Sound.place (h : Sound root w) (hr : Reached root destination src) : Sound root (w.place destination src) where
  nodup := h.nodup
  known := h.known
  reached c hc := by
    cases List.mem_append.mp hc with
    | inl hold => exact h.reached c hold
    | inr hlast => exact List.mem_singleton.mp hlast ▸ hr

/-- What was marked and copied before the dependencies counts once they are done. -/
theorem Grows.around {w' : World} (hg : Grows root ((w.mark destination).place destination src) w')
    (hl : Linked root w' src) : Grows root w w' where
  marked := (List.prefix_append w.copied [destination]).trans hg.marked
  kept := (List.prefix_append w.output [(destination, src)]).trans hg.kept
  copied d hd hnot := by
    by_cases hself : d = destination
    · refine ⟨src, hself ▸ hg.kept.subset ?_⟩
      exact List.mem_append_right _ (List.mem_singleton_self _)
    · apply hg.copied d hd
      intro hmem
      cases List.mem_append.mp hmem with
      | inl hold => exact hnot hold
      | inr hlast => exact hself (List.mem_singleton.mp hlast)
  linked c hc hnot := by
    by_cases hself : c = (destination, src)
    · exact hself ▸ hl
    · apply hg.linked c hc
      intro hmem
      cases List.mem_append.mp hmem with
      | inl hold => exact hnot hold
      | inr hlast => exact hself (List.mem_singleton.mp hlast)

/-- A new destination: its file is found, copied and read before the dependencies. -/
theorem elf_new {depth : ℕ} {path : Text} (hnew : destination ∉ w.copied) :
    elf root (depth + 1) path destination w =
      (Act.lift (source root path) >>= fun src => Act.gets World.output >>= fun output =>
        Act.lift (root.copy output destination src) >>= fun _ =>
        Act.modify (fun w => w.place destination src) >>= fun _ =>
        Act.lift (root.readelf src) >>= dependencies (elf root depth) root) (w.mark destination) := by
  unfold elf
  rw [gets_bind, decide_eq_false hnew]
  rfl

theorem elf_ends (depth : ℕ) : Visits root depth (elf root depth) := by
  induction depth with
  | zero =>
    intro path destination w hwanted hw
    have hmarks := hw.sound.marks
    have hroom := hw.room
    omega
  | succ depth ih =>
    intro path destination w hwanted hw
    by_cases hseen : destination ∈ w.copied
    · have hrun : elf root (depth + 1) path destination w = (.ret (), w) := by
        unfold elf
        rw [gets_bind, decide_eq_true hseen]
        rfl
      exact Ends.ret hrun ⟨hw.sound, Grows.refl w, hseen⟩
    · unfold Ends
      rw [elf_new hseen]
      have hmarked := hw.sound.mark hseen hwanted.known
      apply Ends.lift
      · intro src hs
        have hreached := hwanted.found src hs
        apply Ends.get
        apply Ends.lift
        · intro _ hcopy
          apply Ends.modify
          apply Ends.lift
          · intro data hd
            have hready : Ready root depth ((w.mark destination).place destination src) := by
              refine ⟨hmarked.place hreached, ?_⟩
              have hroom := hw.room
              show (destinations root).length < depth + (w.copied ++ [destination]).length
              rw [List.length_append, List.length_singleton]
              omega
            apply (dependencies_ends ih hready hreached (sourceLoop_file hs) hd).mono
            · intro _ w' ⟨hsound, hg, hl⟩
              refine ⟨hsound, hg.around hl, hg.marked.subset ?_⟩
              exact List.mem_append_right _ (List.mem_singleton_self destination)
            · intro _ _ he
              exact he
          · intro what hd
            exact .inr ⟨destination, src, hreached, .inr ⟨what, hd⟩⟩
        · intro what hcopy
          exact .inr ⟨destination, src, hreached, .inl ⟨_, what, hcopy⟩⟩
      · intro what hs
        exact .inl (hwanted.missing what hs)

/-! ### The whole root -/

theorem busybox_wanted : Wanted root BUSYBOX BUSYBOX where
  known := List.mem_cons_self ..
  found _ hs := Reached.start hs
  missing what hs := .inl ⟨what, hs⟩

/-- From an empty output, a call that returns leaves the whole closure. -/
theorem Grows.complete (hs : Sound root w) (hg : Grows root {} w) (hstart : BUSYBOX ∈ w.copied) : Complete root w := by
  have houtput : ∀ d ∈ w.copied, ∃ src, (d, src) ∈ w.output :=
    fun d hd => hg.copied d hd (List.not_mem_nil)
  have hlinked : ∀ c ∈ w.output, Linked root w c.2 :=
    fun c hc => hg.linked c hc (List.not_mem_nil)
  -- a marked destination of the closure has the file of the closure
  have hfile : ∀ d src, Reached root d src → d ∈ w.copied → (d, src) ∈ w.output := by
    intro d src hr hd
    obtain ⟨src', hsrc⟩ := houtput d hd
    have hsame := hr.unique (hs.reached _ hsrc)
    exact hsame ▸ hsrc
  refine ⟨?_, ?_, ?_, ?_⟩
  · intro d src hr
    induction hr with
    | start hsrc => exact hfile _ _ (.start hsrc) hstart
    | interpreter h hd hi hsrc ih =>
      obtain ⟨data, hd', hpath, hnames⟩ := hlinked _ ih
      rw [hd] at hd'
      cases hd'
      exact hfile _ _ (.interpreter h hd hi hsrc) (hpath _ hi)
    | needed h hd hn hp hsrc ih =>
      obtain ⟨data, hd', hpath, hnames⟩ := hlinked _ ih
      rw [hd] at hd'
      cases hd'
      exact hfile _ _ (.needed h hd hn hp hsrc) (hnames _ hn)
  · intro c hc data path hd hi
    obtain ⟨data', hd', hpath, hnames⟩ := hlinked c hc
    rw [hd] at hd'
    cases hd'
    exact houtput path (hpath path hi)
  · intro c hc data hd name hn
    obtain ⟨data', hd', hpath, hnames⟩ := hlinked c hc
    rw [hd] at hd'
    cases hd'
    exact houtput _ (hnames name hn)
  · intro c hc
    obtain ⟨data, hd, _⟩ := hlinked c hc
    exact ⟨hs.reached c hc, data, hd⟩

/-- A product root without any file. -/
def bare : Root where
  look _ := .other
  readelf _ := .ok []
  copy _ _ _ := .ok ()
  outputs := []
  finite _ _ h := by cases h

end Monutchee.Storage.RamRoot
