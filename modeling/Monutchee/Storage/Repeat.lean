import Monutchee.Storage.Restore
import Monutchee.Lib.Tar
import Mathlib.Data.List.Sort

/-!
# An interrupted restore, repeated

A copy that was cut off leaves the destination behind, and the next run compares it with the
backup as if it were complete. So a restore can be repeated if no copy was cut off between its
first and its last step; otherwise every later run refuses. A destination that is there is never
changed.
-/

namespace Monutchee.Storage.Restore
open Monutchee.Lib Monutchee.Lib.Act Monutchee.Lib.Files
open Monutchee.Storage.Boot (Error mountPath item numeric? slashParts)

/-! ### What a part of a copy leaves -/

theorem find_onDisk_isSome {s : Step} {d : Disk} {path : List Text} (h : d.find path ≠ none) :
    (s.onDisk d).find path ≠ none := by
  obtain ⟨e, he⟩ := Option.ne_none_iff_exists'.mp h
  cases s with
  | parent q => simp [Step.onDisk, Tree.find_add, he]
  | create q e => simp [Step.onDisk, Tree.find_add, he]
  | replace q e =>
    rw [Step.onDisk, Tree.find_change, he]
    split <;> simp
  | write q chunk =>
    rw [Step.onDisk, Tree.find_change, he]
    split <;> simp
  | _ => exact h

theorem find_stepsOn_isSome {l : List Step} {d : Disk} {path : List Text} (h : d.find path ≠ none) :
    (stepsOn l d).find path ≠ none := by
  induction l generalizing d with
  | nil => exact h
  | cons s l ih => exact ih (find_onDisk_isSome h)

/-- Writes at one path put their bytes behind each other and touch nothing else. -/
theorem find_writes {path : List Text} (q : List Text) {chunks : List Bytes} {d : Disk} :
    (stepsOn (chunks.map (.write path)) d).find q =
      if q = path then (d.find q).map (Entry.append chunks.flatten) else d.find q := by
  induction chunks generalizing d with
  | nil =>
    have hid : Entry.append [] = id := by
      funext e
      rcases e with (_ | _) | _ | _ <;> simp [Entry.append]
    simp [hid]
  | cons chunk rest ih =>
    rw [List.map_cons, stepsOn_cons, ih, Step.onDisk, Tree.find_change]
    by_cases hq : q = path
    · have hcomp : Entry.append rest.flatten ∘ Entry.append chunk = Entry.append (chunk :: rest).flatten := by
        funext e
        rcases e with (_ | _) | _ | _ <;> simp [Entry.append]
      rw [if_pos hq, if_pos hq, if_pos hq, Option.map_map, hcomp]
    · rw [if_neg hq, if_neg hq, if_neg hq]

section Copy

variable (c : Copier) {dest : List Text}

theorem find_entry_other {x : List Text × Entry} {d : Disk} {path : List Text} (h : path ≠ dest ++ x.1) :
    (stepsOn (c.entry dest x) d).find path = d.find path := by
  obtain ⟨q, (_ | data) | _ | _⟩ := x
  case stored.file data =>
    rw [Copier.entry, stepsOn_cons, find_writes, if_neg h, Step.onDisk, Tree.find_add, if_neg h,
      Option.or_none]
  all_goals simp [Copier.entry, Step.onDisk, Tree.find_add, h]

theorem find_entry_self {x : List Text × Entry} {d : Disk} (h : d.find (dest ++ x.1) = none) :
    (stepsOn (c.entry dest x) d).find (dest ++ x.1) = some (c.image x.1 x.2) := by
  obtain ⟨q, (_ | data) | _ | _⟩ := x
  case stored.file data =>
    rw [Copier.entry, stepsOn_cons, find_writes, if_pos rfl, Step.onDisk, Tree.find_add, h, if_pos rfl]
    simp [Entry.append, Copier.image, c.whole]
  all_goals simp [Copier.entry, Step.onDisk, Tree.find_add, h]

/-- A part of the writes is not the whole file. -/
theorem flatten_take_ne {chunks : List Bytes} (h : ∀ chunk ∈ chunks, chunk ≠ []) {j : ℕ}
    (hj : j < chunks.length) : (chunks.take j).flatten ≠ chunks.flatten := by
  intro he
  have hsplit : chunks.flatten = (chunks.take j).flatten ++ (chunks.drop j).flatten := by
    rw [← List.flatten_append, List.take_append_drop]
  rw [← he] at hsplit
  have hnil : (chunks.drop j).flatten = [] := List.self_eq_append_right.mp hsplit
  rw [List.drop_eq_getElem_cons hj, List.flatten_cons, List.append_eq_nil_iff] at hnil
  exact h _ (List.getElem_mem hj) hnil.1

theorem find_entry_part {x : List Text × Entry} {d : Disk} (h : d.find (dest ++ x.1) = none) {j : ℕ}
    (hj : j < (c.entry dest x).length) :
    (stepsOn ((c.entry dest x).take j) d).find (dest ++ x.1) ≠ some (c.image x.1 x.2) := by
  cases j with
  | zero => simp [h]
  | succ j =>
    obtain ⟨q, (_ | data) | _ | _⟩ := x
    case stored.file data =>
      have hlt : j < (c.chunks data).length := by simpa [Copier.entry] using hj
      rw [Copier.entry, List.take_succ_cons, stepsOn_cons, ← List.map_take, find_writes, if_pos rfl,
        Step.onDisk, Tree.find_add, h, if_pos rfl]
      have hne := flatten_take_ne (c.nonempty data) hlt
      rw [c.whole] at hne
      simpa [Entry.append, Copier.image] using hne
    all_goals simp [Copier.entry] at hj

theorem find_copy_other {l : List (List Text × Entry)} {d : Disk} {r : List Text}
    (h : r ∉ l.map Prod.fst) :
    (stepsOn (l.flatMap (c.entry dest)) d).find (dest ++ r) = d.find (dest ++ r) := by
  induction l generalizing d with
  | nil => rfl
  | cons x l ih =>
    rw [List.map_cons, List.mem_cons, not_or] at h
    rw [List.flatMap_cons, stepsOn_append, ih h.2,
      find_entry_other c fun he => h.1 (List.append_cancel_left he)]

theorem find_copy_mem {l : List (List Text × Entry)} {d : Disk} (hnodup : (l.map Prod.fst).Nodup)
    {x : List Text × Entry} (hx : x ∈ l) (h : d.find (dest ++ x.1) = none) :
    (stepsOn (l.flatMap (c.entry dest)) d).find (dest ++ x.1) = some (c.image x.1 x.2) := by
  induction l generalizing d with
  | nil => cases hx
  | cons y l ih =>
    rw [List.map_cons, List.nodup_cons] at hnodup
    rw [List.flatMap_cons, stepsOn_append]
    rcases List.mem_cons.mp hx with rfl | hx
    · rw [find_copy_other c hnodup.1, find_entry_self c h]
    · have hne : dest ++ x.1 ≠ dest ++ y.1 := by
        intro he
        exact hnodup.1 (List.mem_map.mpr ⟨x, hx, List.append_cancel_left he⟩)
      exact ih hnodup.2 hx (by rw [find_entry_other c hne, h])

/-- A part of a copy misses something. -/
theorem copy_part {l : List (List Text × Entry)} {d : Disk} (hnodup : (l.map Prod.fst).Nodup)
    (h : ∀ x ∈ l, d.find (dest ++ x.1) = none) {k : ℕ} (hk : k < (l.flatMap (c.entry dest)).length) :
    ∃ x ∈ l, (stepsOn ((l.flatMap (c.entry dest)).take k) d).find (dest ++ x.1) ≠ some (c.image x.1 x.2) := by
  induction l generalizing d k with
  | nil => simp at hk
  | cons x l ih =>
    rw [List.map_cons, List.nodup_cons] at hnodup
    have hx := h x (List.mem_cons_self ..)
    rw [List.flatMap_cons] at hk ⊢
    have hother : ∀ y ∈ l, dest ++ y.1 ≠ dest ++ x.1 := by
      intro y hy he
      exact hnodup.1 (List.mem_map.mpr ⟨y, hy, List.append_cancel_left he⟩)
    by_cases hlt : k < (c.entry dest x).length
    · refine ⟨x, List.mem_cons_self .., ?_⟩
      rw [List.take_append_of_le_length (by omega)]
      exact find_entry_part c hx hlt
    · have hrest : ∀ y ∈ l, (stepsOn (c.entry dest x) d).find (dest ++ y.1) = none := by
        intro y hy
        rw [find_entry_other c (hother y hy)]
        exact h y (List.mem_cons_of_mem _ hy)
      have hk' : k - (c.entry dest x).length < (l.flatMap (c.entry dest)).length := by
        rw [List.length_append] at hk
        omega
      obtain ⟨y, hy, hne⟩ := ih hnodup.2 hrest hk'
      refine ⟨y, List.mem_cons_of_mem _ hy, ?_⟩
      rw [List.take_append, List.take_of_length_le (by omega), stepsOn_append]
      exact hne

theorem nodup_order {l : List (List Text × Entry)} (h : (l.map Prod.fst).Nodup) :
    ((c.order l).map Prod.fst).Nodup := ((c.perm l).map Prod.fst).nodup_iff.mpr h

theorem entry_head {x : List Text × Entry} : ∃ e rest, c.entry dest x = .create (dest ++ x.1) e :: rest := by
  obtain ⟨q, (_ | data) | _ | _⟩ := x
  all_goals exact ⟨_, _, rfl⟩

/-- The first step of a copy creates the destination. -/
theorem copy_head {l : List (List Text × Entry)} (hnodup : (l.map Prod.fst).Nodup) {e : Entry}
    (h : ([], e) ∈ l) : ∃ e' rest, c.copy dest l = .create dest e' :: rest := by
  have hmem : ([], e) ∈ c.order l := (c.perm l).mem_iff.mpr h
  have hfirst := c.parents l hnodup
  unfold Copier.copy
  cases horder : c.order l with
  | nil =>
    rw [horder] at hmem
    cases hmem
  | cons x rest =>
    rw [horder] at hmem hfirst
    have hx : x = ([], e) := by
      rcases List.mem_cons.mp hmem with rfl | hmem
      · rfl
      · exact absurd List.nil_prefix ((List.pairwise_cons.mp hfirst).1 _ hmem)
    obtain ⟨e', steps, hentry⟩ := @entry_head c dest ([], e)
    rw [List.flatMap_cons, hx, hentry, List.append_nil]
    exact ⟨e', _, rfl⟩

theorem copy_copies {l : List (List Text × Entry)} : ∀ s ∈ c.copy dest l, s.copies = true := by
  intro s hs
  obtain ⟨⟨q, (_ | data) | _ | _⟩, -, hx⟩ := List.mem_flatMap.mp hs
  case stored.file data =>
    rcases List.mem_cons.mp hx with rfl | hx
    · rfl
    · obtain ⟨chunk, -, rfl⟩ := List.mem_map.mp hx
      rfl
  all_goals
    rw [List.mem_singleton.mp hx]
    rfl

end Copy

/-! ### One role -/

section Role

variable (lib : Reader) (p : Boot.Policy) (host : Host) (tree : Disk) (role : Role)

/-- Below the source are the source itself, files and directories, as in a backup. -/
structure Plain : Prop where
  there : tree.find (source role) ≠ none
  stored : ∀ r e, tree.find (source role ++ r) = some e → ∃ s, e = .stored s

/-- The destination holds what the source holds. -/
def Copied (d : Disk) : Prop := ∀ r, d.find (destination p role ++ r) = tree.find (source role ++ r)

/-- There is room for the destination. -/
def Free (d : Disk) : Prop :=
  d.find (destination p role) = none ∧
    ∀ q ∈ ancestors (destination p role), ∀ e, d.find q = some e → e.isDir = true

def Ready (d : Disk) : Prop := Copied p tree role d ∨ Free p role d

/-- Nothing lies below a destination that is not there. -/
def Loose (d : Disk) : Prop :=
  d.find (destination p role) = none → ∀ r, d.find (destination p role ++ r) = none

variable {lib p host tree role} {d d' : Disk}

theorem Partition.loose (a : Partition) : Loose p role a.disk := by
  intro hnone r
  by_contra hne
  obtain ⟨e, he⟩ := Option.ne_none_iff_exists'.mp hne
  by_cases hr : r = []
  · rw [hr, List.append_nil] at hne
    exact hne hnone
  · have hdest : destination p role ≠ [] := List.splitOn_ne_nil _ _
    obtain ⟨x, hx, -⟩ := a.closed _ e he _ (mem_ancestors_append hdest hr)
    rw [hnone] at hx
    cases hx

theorem Copied.extends (h : Extends (destination p role) d d') : Copied p tree role d' ↔ Copied p tree role d := by
  unfold Copied
  simp only [h.below]

theorem Free.extends (h : Extends (destination p role) d d') : Free p role d' ↔ Free p role d := by
  have hdest : d'.find (destination p role) = d.find (destination p role) := by
    simpa using h.below []
  unfold Free
  rw [hdest]
  refine and_congr_right fun _ => forall₂_congr fun q hq => ?_
  rcases h.above q hq with he | ⟨hn, hd⟩
  · rw [he]
  · rw [hn, hd]
    simp [Entry.isDir]

theorem Ready.extends (h : Extends (destination p role) d d') : Ready p tree role d' ↔ Ready p tree role d :=
  or_congr (Copied.extends h) (Free.extends h)

theorem Loose.extends (h : Extends (destination p role) d d') (hd : Loose p role d) : Loose p role d' := by
  intro hnone r
  have hdest : d'.find (destination p role) = d.find (destination p role) := by
    simpa using h.below []
  rw [h.below r]
  exact hd (hdest ▸ hnone) r

/-- The parents of the destination can be made where no other object is in their place. -/
theorem parentsScript_error {paths : List (List Text)} :
    (parentsScript paths d).error = none ↔ ∀ q ∈ paths, ∀ e, d.find q = some e → e.isDir = true := by
  induction paths generalizing d with
  | nil => simp [parentsScript]
  | cons q rest ih =>
    rw [parentsScript, List.forall_mem_cons, Script.andThen]
    unfold parentScript
    cases hq : d.find q with
    | none =>
      simp only [reduceCtorEq, false_implies, implies_true, true_and, stepsOn_cons, stepsOn_nil, ih]
      refine forall₂_congr fun q' _ => ?_
      rw [Step.onDisk, Tree.find_add]
      cases hq' : d.find q' with
      | none =>
        by_cases he : q' = q <;> simp [he, Entry.isDir]
      | some e => simp
    | some e =>
      cases he : e.isDir with
      | true => simp [he, ih]
      | false => simp [he]

theorem Plain.root (h : Plain tree role) : ∃ s, tree.find (source role) = some (.stored s) := by
  obtain ⟨e, he⟩ := Option.ne_none_iff_exists'.mp h.there
  obtain ⟨s, rfl⟩ := h.stored [] e (by rwa [List.append_nil])
  exact ⟨s, he⟩

/-- What is copied of files and directories is the same at its new place. -/
theorem Plain.image (h : Plain tree role) (c : Copier) {r : List Text} {e : Entry}
    (he : tree.find (source role ++ r) = some e) : c.image r e = e := by
  obtain ⟨s, rfl⟩ := h.stored r e he
  rfl

theorem copyScript_free (hplain : Plain tree role) (h : Free p role d) : copyScript lib p host tree role d =
    ⟨(parentsScript (ancestors (destination p role)) d).steps ++
      (host.copier.copy (destination p role) (tree.subtree (source role)) ++ settleSteps host), none⟩ := by
  obtain ⟨s, hs⟩ := hplain.root
  have hthere : there p role d = false := by rw [there, h.1]; rfl
  have herror := parentsScript_error.mpr h.2
  unfold copyScript copyTreeScript copyTree
  rw [if_neg (by simp [hthere]), h.1, hs, Script.andThen, herror]

theorem settleSteps_quiet (dest : List Text) : ∀ s ∈ settleSteps host, Quiet dest s := by
  intro s hs
  unfold settleSteps at hs
  rcases List.mem_append.mp hs with hs | hs
  · split at hs
    · rw [List.mem_singleton.mp hs]
      trivial
    · cases hs
  · rw [List.mem_singleton.mp hs]
    trivial

/-- Without room the copy is refused, unless the destination is there and compares as equal. -/
theorem copyScript_not_free (hplain : Plain tree role) (h : ¬ Free p role d) :
    (∀ s ∈ (copyScript lib p host tree role d).steps, Quiet (destination p role) s) ∧
      ((copyScript lib p host tree role d).error = none ↔
        there p role d = true ∧ compare lib p tree role d = .ok ()) := by
  unfold copyScript
  by_cases hthere : there p role d = true
  · rw [if_pos hthere]
    cases compare lib p tree role d with
    | ok u => exact ⟨settleSteps_quiet _, by simp [hthere]⟩
    | error e => exact ⟨by simp, by simp⟩
  · rw [if_neg hthere]
    have hquiet : ∀ s ∈ (parentsScript (ancestors (destination p role)) d).steps,
        Quiet (destination p role) s := parentsScript_quiet fun _ hq => hq
    unfold Script.andThen
    cases herror : (parentsScript (ancestors (destination p role)) d).error with
    | some e => exact ⟨hquiet, by simp [hthere]⟩
    | none =>
      obtain ⟨s, hs⟩ := hplain.root
      obtain ⟨e, he⟩ := Option.ne_none_iff_exists'.mp fun hn => h ⟨hn, parentsScript_error.mp herror⟩
      have hcopy : copyTreeScript p host tree role d = ⟨[], some .other⟩ := by
        unfold copyTreeScript copyTree
        rw [hs, he]
      rw [hcopy]
      exact ⟨by simpa using hquiet, by simp [hthere]⟩

/-! ### Comparing -/

def digestOf (lib : Reader) : Stored → Option Text
  | .file data => some (lib.sha256 data)
  | .directory => none

def digestEntry (lib : Reader) : Entry → Option Text
  | .stored s => digestOf lib s
  | _ => none

theorem contentsOf_ok {e : Entry} {value : Option Text} :
    contentsOf lib e = .ok value ↔ (∃ s, e = .stored s) ∧ digestEntry lib e = value := by
  obtain (_ | data) | _ | _ := e
  all_goals simp [contentsOf, digestEntry, digestOf]

theorem contents_ok {l : List (List Text × Entry)} {digests : List (List Text × Option Text)} :
    contents lib l = .ok digests ↔
      (∀ x ∈ l, ∃ s, x.2 = .stored s) ∧ l.map (fun x => (x.1, digestEntry lib x.2)) = digests := by
  unfold contents
  induction l generalizing digests with
  | nil => simp
  | cons x l ih =>
    simp only [List.mapM_cons, bind_ok, pure_ok, contentsOf_ok, ih, List.forall_mem_cons, List.map_cons]
    constructor
    · rintro ⟨_, ⟨value, ⟨hx, rfl⟩, rfl⟩, rest, ⟨hl, rfl⟩, rfl⟩
      exact ⟨⟨hx, hl⟩, rfl⟩
    · rintro ⟨⟨hx, hl⟩, rfl⟩
      exact ⟨_, ⟨_, ⟨hx, rfl⟩, rfl⟩, _, ⟨hl, rfl⟩, rfl⟩

/-- What is compared: the kinds of the objects, and the digests of the files. -/
theorem compare_ok : compare lib p tree role d = .ok () ↔ Plain tree role ∧
    (∀ r e, d.find (destination p role ++ r) = some e → ∃ s, e = .stored s) ∧
    ∀ r, (d.find (destination p role ++ r)).map (digestEntry lib) =
      (tree.find (source role ++ r)).map (digestEntry lib) := by
  have hlisted : ∀ (t : Disk) (root : List Text), (∀ x ∈ t.subtree root, ∃ s, x.2 = .stored s) ↔
      ∀ r e, t.find (root ++ r) = some e → ∃ s, e = .stored s := by
    intro t root
    simp only [Prod.forall, Tree.mem_subtree]
  unfold compare
  simp only [bind_ok, refuse_ok, contents_ok, Boot.require_ok, sameListing_iff, hlisted]
  constructor
  · rintro ⟨_, hthere, _, ⟨hstored, rfl⟩, _, ⟨hdisk, rfl⟩, hsame⟩
    refine ⟨⟨by simpa [Option.isSome_iff_ne_none] using hthere, hstored⟩, hdisk, fun r => ?_⟩
    have h := hsame r
    rw [lookup_map (fun _ e => digestEntry lib e), lookup_map (fun _ e => digestEntry lib e), tree.lookup_subtree,
      d.lookup_subtree] at h
    exact h.symm
  · rintro ⟨⟨hthere, hstored⟩, hdisk, hsame⟩
    refine ⟨(), by simpa [Option.isSome_iff_ne_none] using hthere, _, ⟨hstored, rfl⟩, _, ⟨hdisk, rfl⟩, fun r => ?_⟩
    rw [lookup_map (fun _ e => digestEntry lib e), lookup_map (fun _ e => digestEntry lib e), tree.lookup_subtree,
      d.lookup_subtree]
    exact (hsame r).symm

/-- What the source holds compares as equal. -/
theorem compare_copied (hplain : Plain tree role) (h : Copied p tree role d) : compare lib p tree role d = .ok () := by
  rw [compare_ok]
  refine ⟨hplain, ?_, fun r => by rw [h r]⟩
  intro r e he
  rw [h r] at he
  exact hplain.stored r e he

theorem there_copied (hplain : Plain tree role) (h : Copied p tree role d) : there p role d = true := by
  have hdest := h []
  rw [List.append_nil, List.append_nil] at hdest
  obtain ⟨s, hs⟩ := hplain.root
  rw [there, hdest, hs]
  rfl

/-! ### A whole run -/

theorem roleScript_open {mounts : List Text} (h : mounts = tmpfs ∨ mounts = []) :
    roleScript lib p host tree role d mounts =
      ⟨(clearSteps mounts ++ [.mount]) ++ (copyScript lib p host tree role d).steps ++ [.umount],
        (copyScript lib p host tree role d).error⟩ := by
  unfold roleScript
  rw [if_pos h]
  simp

theorem clearSteps_quiet (dest : List Text) (mounts : List Text) : ∀ s ∈ clearSteps mounts, Quiet dest s := by
  intro s hs
  rcases List.mem_cons.mp hs with rfl | hs
  · trivial
  · split at hs
    · rw [List.mem_singleton.mp hs]
      trivial
    · cases hs

theorem opening_quiet (dest : List Text) (mounts : List Text) :
    ∀ s ∈ clearSteps mounts ++ [.mount], Quiet dest s := by
  intro s hs
  rcases List.mem_append.mp hs with hs | hs
  · exact clearSteps_quiet dest mounts s hs
  · rw [List.mem_singleton.mp hs]
    trivial

/-- Without room, and over a mounted file system, a run does nothing to the destination. -/
theorem roleScript_quiet (hplain : Plain tree role) {mounts : List Text} (h : ¬ (Free p role d ∧ (mounts = tmpfs ∨ mounts = []))) :
    ∀ s ∈ (roleScript lib p host tree role d mounts).steps, Quiet (destination p role) s := by
  intro s hs
  by_cases hopen : mounts = tmpfs ∨ mounts = []
  · rw [roleScript_open hopen] at hs
    have hfree : ¬ Free p role d := fun hf => h ⟨hf, hopen⟩
    rcases List.mem_append.mp hs with hs | hs
    · rcases List.mem_append.mp hs with hs | hs
      · exact opening_quiet _ mounts s hs
      · exact (copyScript_not_free hplain hfree).1 s hs
    · rw [List.mem_singleton.mp hs]
      trivial
  · unfold roleScript at hs
    rw [if_neg hopen] at hs
    exact clearSteps_quiet _ mounts s hs

/-- With room a run makes the parents, copies, and comes to its end. -/
theorem roleScript_free (hplain : Plain tree role) {mounts : List Text} (hopen : mounts = tmpfs ∨ mounts = []) (h : Free p role d) :
    ∃ before after, roleScript lib p host tree role d mounts =
        ⟨before ++ host.copier.copy (destination p role) (tree.subtree (source role)) ++ after, none⟩ ∧
      (∀ s ∈ before, Quiet (destination p role) s) ∧ ∀ s ∈ after, Quiet (destination p role) s := by
  have hquiet : ∀ s ∈ (parentsScript (ancestors (destination p role)) d).steps,
      Quiet (destination p role) s := parentsScript_quiet fun _ hq => hq
  refine ⟨(clearSteps mounts ++ [.mount]) ++ (parentsScript (ancestors (destination p role)) d).steps,
    settleSteps host ++ [.umount], ?_, ?_, ?_⟩
  · rw [roleScript_open hopen, copyScript_free hplain h]
    simp
  · intro s hs
    rcases List.mem_append.mp hs with hs | hs
    · exact opening_quiet _ mounts s hs
    · exact hquiet s hs
  · intro s hs
    rcases List.mem_append.mp hs with hs | hs
    · exact settleSteps_quiet _ s hs
    · rw [List.mem_singleton.mp hs]
      trivial

/-- A whole copy is what was copied. -/
theorem copy_find (c : Copier) (hd : Loose p role d) (hnone : d.find (destination p role) = none) (r : List Text) :
    (stepsOn (c.copy (destination p role) (tree.subtree (source role))) d).find (destination p role ++ r) =
      (tree.find (source role ++ r)).map (c.image r) := by
  have hempty := hd hnone
  have hnodup := nodup_order c (tree.nodup_subtree (source role))
  unfold Copier.copy
  cases hr : tree.find (source role ++ r) with
  | some e =>
    have hmem : (r, e) ∈ c.order (tree.subtree (source role)) :=
      (c.perm _).mem_iff.mpr (Tree.mem_subtree.mpr hr)
    exact find_copy_mem c hnodup hmem (hempty r)
  | none =>
    have hnot : r ∉ (c.order (tree.subtree (source role))).map Prod.fst := by
      intro hmem
      obtain ⟨x, hx, rfl⟩ := List.mem_map.mp hmem
      have hfind := Tree.mem_subtree.mp ((c.perm _).mem_iff.mp hx)
      rw [hr] at hfind
      cases hfind
    rw [find_copy_other c hnot, hempty r]
    rfl

theorem copied_copy (hplain : Plain tree role) (c : Copier) (hd : Loose p role d)
    (hnone : d.find (destination p role) = none) :
    Copied p tree role (stepsOn (c.copy (destination p role) (tree.subtree (source role))) d) := by
  intro r
  rw [copy_find c hd hnone]
  cases hr : tree.find (source role ++ r) with
  | some e => rw [Option.map_some, hplain.image c hr]
  | none => rfl

/-- A run from its start to its end restores exactly what is ready for it. -/
theorem restores_iff {mounts : List Text} (hopen : mounts = tmpfs ∨ mounts = [])
    (hplain : Plain tree role) (hd : Loose p role d) :
    ((roleScript lib p host tree role d mounts).error = none ∧
        Copied p tree role (stepsOn (roleScript lib p host tree role d mounts).steps d)) ↔
      Ready p tree role d := by
  by_cases hfree : Free p role d
  · obtain ⟨before, after, hscript, hbefore, hafter⟩ := @roleScript_free lib p host tree role
      d hplain mounts hopen hfree
    have hx := stepsOn_quiet hbefore d
    have hcopied := @copied_copy p tree role _ hplain host.copier (Loose.extends hx hd) ((Free.extends hx).mpr hfree).1
    rw [hscript]
    simp only [stepsOn_append, true_and]
    rw [Copied.extends (stepsOn_quiet hafter _)]
    exact iff_of_true hcopied (.inr hfree)
  · have hquiet : ∀ s ∈ (roleScript lib p host tree role d mounts).steps, Quiet (destination p role) s := roleScript_quiet
      hplain fun h => hfree h.1
    rw [Copied.extends (stepsOn_quiet hquiet d), roleScript_open hopen]
    simp only [(copyScript_not_free hplain hfree).2]
    constructor
    · rintro ⟨-, hcopied⟩
      exact .inl hcopied
    · rintro (hcopied | hf)
      · exact ⟨⟨there_copied hplain hcopied, compare_copied hplain hcopied⟩, hcopied⟩
      · exact absurd hf hfree

/-! ### A run that is cut off -/

/-- Some steps of a copy are done and some are not. -/
def Halfway (l : List Step) (k : ℕ) : Prop :=
  (∃ s ∈ l.take k, s.copies = true) ∧ ∃ s ∈ l.drop k, s.copies = true

theorem quiet_not_copies {dest : List Text} {s : Step} (h : Quiet dest s) : s.copies = false := by
  cases s with
  | create path e => cases h
  | replace path e => cases h
  | write path chunk => cases h
  | _ => rfl

theorem quiet_not_halfway {dest : List Text} {l : List Step} (h : ∀ s ∈ l, Quiet dest s) (k : ℕ) :
    ¬ Halfway l k := by
  rintro ⟨⟨s, hs, hc⟩, -⟩
  rw [quiet_not_copies (h s (List.mem_of_mem_take hs))] at hc
  cases hc

/-- A copy cut off between its first and its last step leaves a destination that is neither absent nor
the backup. -/
theorem not_ready_part (c : Copier) (hplain : Plain tree role) (hd : Loose p role d)
    (hnone : d.find (destination p role) = none) {j : ℕ} (hj : 0 < j)
    (hlt : j < (c.copy (destination p role) (tree.subtree (source role))).length) :
    (stepsOn ((c.copy (destination p role) (tree.subtree (source role))).take j) d).find
        (destination p role) ≠ none ∧
      ¬ Copied p tree role
        (stepsOn ((c.copy (destination p role) (tree.subtree (source role))).take j) d) := by
  have hempty := hd hnone
  have hnodup := tree.nodup_subtree (source role)
  constructor
  · obtain ⟨s, hs⟩ := hplain.root
    have hroot : ([], Entry.stored s) ∈ tree.subtree (source role) := Tree.mem_subtree.mpr (by rwa [List.append_nil])
    obtain ⟨e, rest, hhead⟩ := @copy_head c (destination p role) _ hnodup _ hroot
    obtain ⟨i, rfl⟩ := Nat.exists_eq_succ_of_ne_zero (by omega : j ≠ 0)
    rw [hhead, List.take_succ_cons, stepsOn_cons]
    apply find_stepsOn_isSome
    simp [Step.onDisk, Tree.find_add]
  · intro hcopied
    obtain ⟨x, hx, hne⟩ := copy_part c (nodup_order c hnodup) (fun x _ => hempty x.1) hlt
    have hfind := Tree.mem_subtree.mp ((c.perm _).mem_iff.mp hx)
    exact hne (by rw [← Copier.copy, hcopied x.1, hfind, hplain.image c hfind])

theorem exists_copies {l : List Step} (h : ∀ s ∈ l, s.copies = true) (hne : l ≠ []) :
    ∃ s ∈ l, s.copies = true := by
  obtain ⟨s, hs⟩ := List.exists_mem_of_ne_nil l hne
  exact ⟨s, hs, h s hs⟩

/-- A run is in the middle of its copy from the first step of the copy to the one before its last. -/
theorem halfway_iff {before copy after : List Step} (hbefore : ∀ s ∈ before, s.copies = false)
    (hcopy : ∀ s ∈ copy, s.copies = true) (hafter : ∀ s ∈ after, s.copies = false) (k : ℕ) :
    Halfway (before ++ copy ++ after) k ↔ before.length < k ∧ k < before.length + copy.length := by
  unfold Halfway
  rw [List.append_assoc, List.take_append, List.take_append, List.drop_append, List.drop_append]
  have hother : ∀ {l : List Step} {s : Step}, (∀ s ∈ l, s.copies = false) → s.copies = true → s ∉ l := by
    intro l s hl hs hmem
    rw [hl s hmem] at hs
    cases hs
  constructor
  · rintro ⟨⟨s, hs, hcs⟩, t, ht, hct⟩
    have hdone : s ∈ copy.take (k - before.length) := by
      rcases List.mem_append.mp hs with hs | hs
      · exact absurd (List.mem_of_mem_take hs) (hother hbefore hcs)
      · exact (List.mem_append.mp hs).resolve_right fun hs => hother hafter hcs (List.mem_of_mem_take hs)
    have hleft : t ∈ copy.drop (k - before.length) := by
      rcases List.mem_append.mp ht with ht | ht
      · exact absurd (List.mem_of_mem_drop ht) (hother hbefore hct)
      · exact (List.mem_append.mp ht).resolve_right fun ht => hother hafter hct (List.mem_of_mem_drop ht)
    have htake := List.length_pos_of_mem hdone
    have hdrop := List.length_pos_of_mem hleft
    rw [List.length_take] at htake
    rw [List.length_drop] at hdrop
    omega
  · rintro ⟨hfirst, hlast⟩
    have htake : copy.take (k - before.length) ≠ [] := by
      rw [← List.length_pos_iff, List.length_take]
      omega
    have hdrop : copy.drop (k - before.length) ≠ [] := by
      rw [← List.length_pos_iff, List.length_drop]
      omega
    obtain ⟨s, hs, hcs⟩ := exists_copies (fun s hs => hcopy s (List.mem_of_mem_take hs)) htake
    obtain ⟨t, ht, hct⟩ := exists_copies (fun t ht => hcopy t (List.mem_of_mem_drop ht)) hdrop
    exact ⟨⟨s, List.mem_append_right _ (List.mem_append_left _ hs), hcs⟩,
      t, List.mem_append_right _ (List.mem_append_left _ ht), hct⟩

/-- Nothing is done to the destination before it is there or made. -/
def Rooted (dest : List Text) (d : Disk) (l : List Step) : Prop :=
  ∃ before rest, l = before ++ rest ∧ (∀ s ∈ before, Quiet dest s) ∧
    (rest = [] ∨ d.find dest ≠ none ∨ ∃ e later, rest = .create dest e :: later)

theorem roleScript_rooted (mounts : List Text) :
    Rooted (destination p role) d (roleScript lib p host tree role d mounts).steps := by
  by_cases hdest : d.find (destination p role) = none
  swap
  · exact ⟨[], _, rfl, by simp, .inr (.inl hdest)⟩
  by_cases hopen : mounts = tmpfs ∨ mounts = []
  swap
  · unfold roleScript
    rw [if_neg hopen]
    exact ⟨_, [], (List.append_nil _).symm, clearSteps_quiet _ mounts, .inl rfl⟩
  have hparents : ∀ s ∈ clearSteps mounts ++ [.mount] ++ (parentsScript (ancestors (destination p role)) d).steps,
      Quiet (destination p role) s := by
    intro s hs
    rcases List.mem_append.mp hs with hs | hs
    · exact opening_quiet _ mounts s hs
    · exact parentsScript_quiet (fun _ hq => hq) s hs
  have hquiet : ∀ s ∈ clearSteps mounts ++ [.mount] ++ (parentsScript (ancestors (destination p role)) d).steps ++
      [.umount], Quiet (destination p role) s := by
    intro s hs
    rcases List.mem_append.mp hs with hs | hs
    · exact hparents s hs
    · rw [List.mem_singleton.mp hs]
      trivial
  have hthere : there p role d = false := by rw [there, hdest]; rfl
  rw [roleScript_open hopen]
  unfold copyScript copyTreeScript copyTree Script.andThen
  rw [if_neg (by simp [hthere]), hdest]
  cases (parentsScript (ancestors (destination p role)) d).error with
  | some e => exact ⟨_, [], (List.append_nil _).symm, hquiet, .inl rfl⟩
  | none =>
    cases hs : tree.find (source role) with
    | none => exact ⟨_, [], by simp, hquiet, .inl rfl⟩
    | some e =>
      have hroot : ([], e) ∈ tree.subtree (source role) := Tree.mem_subtree.mpr (by rwa [List.append_nil])
      obtain ⟨e', later, hhead⟩ := @copy_head host.copier (destination p role) _ (tree.nodup_subtree _) _ hroot
      refine ⟨_, .create (destination p role) e' :: (later ++ settleSteps host ++ [.umount]), ?_, hparents,
        .inr (.inr ⟨e', _, rfl⟩)⟩
      simp [hhead]

/-- Wherever such a run is cut off, nothing lies below a destination that is not there. -/
theorem Rooted.loose {l : List Step} (h : Rooted (destination p role) d l) (hd : Loose p role d) (k : ℕ) :
    Loose p role (stepsOn (l.take k) d) := by
  obtain ⟨before, rest, rfl, hquiet, hrest⟩ := h
  rcases hrest with rfl | hthere | ⟨e, later, rfl⟩
  · rw [List.append_nil]
    exact Loose.extends (stepsOn_quiet (fun s hs => hquiet s (List.mem_of_mem_take hs)) d) hd
  · exact fun habsent => absurd habsent (find_stepsOn_isSome hthere)
  · by_cases hk : k ≤ before.length
    · rw [List.take_append_of_le_length hk]
      exact Loose.extends (stepsOn_quiet (fun s hs => hquiet s (List.mem_of_mem_take hs)) d) hd
    · obtain ⟨i, hi⟩ : ∃ i, k - before.length = i + 1 := Nat.exists_eq_succ_of_ne_zero (by omega)
      rw [List.take_append, List.take_of_length_le (by omega), stepsOn_append, hi, List.take_succ_cons, stepsOn_cons]
      intro habsent
      exact absurd habsent (find_stepsOn_isSome (by simp [Step.onDisk, Tree.find_add]))

/-- Steps that stay off the destination leave it as ready as it was. -/
theorem quiet_ready (tree : Disk) {l : List Step} (h : ∀ s ∈ l, Quiet (destination p role) s) :
    Ready p tree role (stepsOn l d) ↔ Ready p tree role d := Ready.extends (stepsOn_quiet h d)

/-- What a run leaves that is cut off after `k` steps. -/
theorem interrupted (hplain : Plain tree role) (hd : Loose p role d) (mounts : List Text) (k : ℕ) :
    Ready p tree role (stepsOn ((roleScript lib p host tree role d mounts).steps.take k) d) ↔
      Ready p tree role d ∧ ¬ Halfway (roleScript lib p host tree role d mounts).steps k := by
  by_cases h : Free p role d ∧ (mounts = tmpfs ∨ mounts = [])
  · obtain ⟨before, after, hscript, hbefore, hafter⟩ := @roleScript_free lib p host tree role d hplain mounts h.2 h.1
    have hx := stepsOn_quiet hbefore d
    have hloose := Loose.extends hx hd
    have hnone := ((Free.extends hx).mpr h.1).1
    have hready : Ready p tree role d := .inr h.1
    rw [hscript]
    simp only
    generalize hcopy : host.copier.copy (destination p role) (tree.subtree (source role)) = copy
    rw [halfway_iff (fun s hs => quiet_not_copies (hbefore s hs)) (hcopy ▸ copy_copies host.copier)
      (fun s hs => quiet_not_copies (hafter s hs)), and_iff_right hready, List.append_assoc]
    by_cases hk : k ≤ before.length
    · -- before the copy
      rw [List.take_append_of_le_length hk, quiet_ready tree fun s hs => hbefore s (List.mem_of_mem_take hs)]
      exact iff_of_true hready (by omega)
    have htake : (before ++ (copy ++ after)).take k =
        before ++ (copy.take (k - before.length) ++ after.take (k - before.length - copy.length)) := by
      rw [List.take_append, List.take_of_length_le (by omega), List.take_append]
    rw [htake, stepsOn_append, stepsOn_append]
    by_cases hall : before.length + copy.length ≤ k
    · -- after the copy
      rw [List.take_of_length_le (by omega : copy.length ≤ k - before.length)]
      have hcopied : Copied p tree role (stepsOn copy (stepsOn before d)) := by
        rw [← hcopy]
        exact copied_copy hplain host.copier hloose hnone
      rw [quiet_ready tree fun s hs => hafter s (List.mem_of_mem_take hs)]
      exact iff_of_true (.inl hcopied) (by omega)
    · -- in the middle of it
      obtain ⟨hthere, hpart⟩ := not_ready_part (j := k - before.length) host.copier hplain hloose hnone (by omega)
        (by rw [hcopy]; omega)
      rw [hcopy] at hthere hpart
      have hnil : k - before.length - copy.length = 0 := by omega
      rw [hnil, List.take_zero, stepsOn_nil]
      refine iff_of_false ?_ (by omega)
      rintro (hcopied | hfree)
      · exact hpart hcopied
      · exact hthere hfree.1
  · have hquiet : ∀ s ∈ (roleScript lib p host tree role d mounts).steps, Quiet (destination p role) s :=
      roleScript_quiet hplain h
    rw [quiet_ready tree fun s hs => hquiet s (List.mem_of_mem_take hs)]
    exact (and_iff_left (quiet_not_halfway hquiet k)).symm

/-! ### Two roles -/

theorem perform_cut {s : Script} {w : Machine} {n : ℕ} (h : w.power = some n) :
    (perform role s w).2 = w.applyAll role (s.steps.take n) ∧
      ((perform role s w).1 = .ret () ↔ s.error = none ∧ s.steps.length ≤ n) := by
  unfold perform
  rw [Act.bind_apply, each_act_run]
  by_cases hn : s.steps.length ≤ n
  · rw [if_pos (by intro m hm; rw [h] at hm; cases hm; exact hn), List.take_of_length_le hn]
    cases s.error with
    | none => exact ⟨rfl, by simp [hn]⟩
    | some e => exact ⟨rfl, by simp⟩
  · rw [if_neg (fun hall => hn (hall n h)), h]
    exact ⟨rfl, by simp [hn]⟩

theorem perform_whole {s : Script} {w : Machine} (h : w.power = none) :
    (perform role s w).2 = w.applyAll role s.steps ∧ ((perform role s w).1 = .ret () ↔ s.error = none) := by
  unfold perform
  rw [Act.bind_apply, each_act_run, if_pos (by simp [h])]
  cases s.error with
  | none => exact ⟨rfl, by simp⟩
  | some e => exact ⟨rfl, by simp⟩

end Role

/-- The roles that a restore writes to. -/
def restored : List Role := [.factory, .state]

/-- What a role's destination holds is what the backup holds. -/
def Holds (p : Boot.Policy) (members : List Member) (role : Role) (d : Disk) : Prop :=
  ∀ r, d.find (destination p role ++ r) = (archived members (source role ++ r)).map .stored

/-- A destination that was there is as it was. -/
def Untouched (p : Boot.Policy) (before after : Role → Disk) : Prop :=
  ∀ role ∈ restored, (before role).find (destination p role) ≠ none →
    ∀ r, (after role).find (destination p role ++ r) = (before role).find (destination p role ++ r)

/-- The steps of each role in a run that nothing cuts off. The state role has its turn if the factory
role came to its end. -/
def roleSteps (lib : Reader) (p : Boot.Policy) (file : BackupFile) (host : Host) (disk : Role → Disk)
    (mounts : Role → List Text) (role : Role) : List Step :=
  match opening lib p file host with
  | .error _ => []
  | .ok tree =>
    let factory := roleScript lib p host tree .factory (disk .factory) (mounts .factory)
    match role with
    | .factory => factory.steps
    | .state =>
      if factory.error.isSome then []
      else (roleScript lib p host tree .state (disk .state) (mounts .state)).steps
    | .data => []

/-- All steps of the run, in their order. -/
def timeline (lib : Reader) (p : Boot.Policy) (file : BackupFile) (host : Host) (disk : Role → Disk)
    (mounts : Role → List Text) : List (Role × Step) :=
  restored.flatMap fun role => (roleSteps lib p file host disk mounts role).map fun s => (role, s)

/-- The cut after `n` steps falls into the copy of the role. -/
def CutInCopy (l : List (Role × Step)) (n : ℕ) (role : Role) : Prop :=
  (∃ s ∈ l.take n, s.1 = role ∧ s.2.copies = true) ∧ ∃ s ∈ l.drop n, s.1 = role ∧ s.2.copies = true

instance (l : List (Role × Step)) (n : ℕ) (role : Role) : Decidable (CutInCopy l n role) :=
  inferInstanceAs (Decidable (_ ∧ _))

section Runs

variable {lib : Reader} {p : Boot.Policy} {file : BackupFile} {host : Host} {w : Machine}

theorem restore_error {e : Error} (h : opening lib p file host = .error e) :
    restore lib p file host w = (.raise e, w) := by
  unfold restore
  rw [Act.bind_apply, h]
  rfl

theorem restore_ok {tree : Disk} (h : opening lib p file host = .ok tree) :
    restore lib p file host w =
      (restoreRole lib p host tree .factory >>= fun _ => restoreRole lib p host tree .state) w := by
  unfold restore
  rw [Act.bind_apply, h]
  rfl

theorem factory_state : Role.state ≠ Role.factory := by decide

theorem state_factory : Role.factory ≠ Role.state := by decide

theorem perform_world (role : Role) (s : Script) (w : Machine) :
    ∃ l, (perform role s w).2 = w.applyAll role l := by
  cases h : w.power with
  | none => exact ⟨_, (perform_whole h).1⟩
  | some n => exact ⟨_, (perform_cut h).1⟩

/-- The script of the state role does not depend on what happened to the other one. -/
theorem restore_scripts {tree : Disk} (h : opening lib p file host = .ok tree) :
    restore lib p file host w =
      (perform .factory (roleScript lib p host tree .factory (w.disk .factory) (w.mounts .factory)) >>= fun _ =>
        perform .state (roleScript lib p host tree .state (w.disk .state) (w.mounts .state))) w := by
  rw [restore_ok h, Act.bind_apply, Act.bind_apply, restoreRole_follows lib p host tree w]
  obtain ⟨l, hl⟩ := perform_world .factory
    (roleScript lib p host tree .factory (w.disk .factory) (w.mounts .factory)) w
  rcases hp : perform .factory (roleScript lib p host tree .factory (w.disk .factory) (w.mounts .factory)) w
    with ⟨o, w₁⟩
  rw [hp] at hl
  cases o with
  | ret u =>
    have hw₁ : w₁ = w.applyAll .factory l := hl
    have hstate := @restoreRole_follows .state lib p host tree w₁
    simp only [hw₁, (applyAll_other w factory_state l).1, (applyAll_other w factory_state l).2] at hstate ⊢
    exact hstate
  | raise e => rfl
  | crash => rfl

section Scripts

variable (F S : Script)

/-- The second script has its turn if the first one came to its end. -/
theorem two_cut {n : ℕ} (h : w.power = some n) :
    ((perform .factory F >>= fun _ => perform .state S) w).2.disk .factory =
        stepsOn (F.steps.take n) (w.disk .factory) ∧
      ((perform .factory F >>= fun _ => perform .state S) w).2.disk .state =
        stepsOn ((if F.error.isSome then [] else S.steps).take (n - F.steps.length)) (w.disk .state) := by
  obtain ⟨hworld, hret⟩ := @perform_cut .factory F w n h
  rw [Act.bind_apply]
  rcases hp : perform .factory F w with ⟨o, w₁⟩
  rw [hp] at hworld hret
  have hw₁ : w₁ = w.applyAll .factory (F.steps.take n) := hworld
  have hfactory : w₁.disk .factory = stepsOn (F.steps.take n) (w.disk .factory) := by
    rw [hw₁, applyAll_disk]
  have hstate : w₁.disk .state = w.disk .state := by rw [hw₁, (applyAll_other w factory_state _).1]
  have hrest : o ≠ .ret () →
      stepsOn ((if F.error.isSome then [] else S.steps).take (n - F.steps.length)) (w.disk .state) =
        w.disk .state := by
    intro ho
    cases herror : F.error with
    | some e => simp
    | none =>
      have hlength : ¬ F.steps.length ≤ n := fun hl => ho (hret.mpr ⟨herror, hl⟩)
      have hzero : n - F.steps.length = 0 := by omega
      rw [hzero, List.take_zero]
      rfl
  cases o with
  | ret u =>
    obtain ⟨herror, hlength⟩ := hret.mp rfl
    have hpower : w₁.power = some (n - F.steps.length) := by
      rw [hw₁, applyAll_power, h, List.length_take, Nat.min_eq_right hlength]
      rfl
    have hcut := (@perform_cut .state S w₁ _ hpower).1
    simp only [hcut, herror]
    refine ⟨by rw [(applyAll_other w₁ state_factory _).1, hfactory], ?_⟩
    rw [applyAll_disk, hstate]
    rfl
  | raise e => exact ⟨hfactory, by rw [hrest (by simp)]; exact hstate⟩
  | crash => exact ⟨hfactory, by rw [hrest (by simp)]; exact hstate⟩

theorem two_whole (h : w.power = none) :
    ((perform .factory F >>= fun _ => perform .state S) w).2.disk .factory =
        stepsOn F.steps (w.disk .factory) ∧
      ((perform .factory F >>= fun _ => perform .state S) w).2.disk .state =
        stepsOn (if F.error.isSome then [] else S.steps) (w.disk .state) ∧
      (((perform .factory F >>= fun _ => perform .state S) w).1 = .ret () ↔
        F.error = none ∧ S.error = none) := by
  obtain ⟨hworld, hret⟩ := @perform_whole .factory F w h
  rw [Act.bind_apply]
  rcases hp : perform .factory F w with ⟨o, w₁⟩
  rw [hp] at hworld hret
  have hw₁ : w₁ = w.applyAll .factory F.steps := hworld
  have hfactory : w₁.disk .factory = stepsOn F.steps (w.disk .factory) := by rw [hw₁, applyAll_disk]
  have hstate : w₁.disk .state = w.disk .state := by rw [hw₁, (applyAll_other w factory_state _).1]
  have hrest : o ≠ .ret () → F.error.isSome = true := by
    intro ho
    rw [Option.isSome_iff_ne_none]
    exact fun hn => ho (hret.mpr hn)
  cases o with
  | ret u =>
    have herror := hret.mp rfl
    have hpower : w₁.power = none := by
      rw [hw₁, applyAll_power, h]
      rfl
    obtain ⟨hsecond, hreturns⟩ := @perform_whole .state S w₁ hpower
    simp only [hsecond, hreturns, herror]
    refine ⟨by rw [(applyAll_other w₁ state_factory _).1, hfactory], ?_, by simp⟩
    rw [applyAll_disk, hstate]
    rfl
  | raise e =>
    have hsome := hrest (by simp)
    refine ⟨hfactory, by rw [if_pos hsome]; exact hstate, iff_of_false (by simp) ?_⟩
    rintro ⟨hn, -⟩
    rw [hn] at hsome
    cases hsome
  | crash =>
    have hsome := hrest (by simp)
    refine ⟨hfactory, by rw [if_pos hsome]; exact hstate, iff_of_false (by simp) ?_⟩
    rintro ⟨hn, -⟩
    rw [hn] at hsome
    cases hsome

end Scripts

/-- What is left of the two partitions by a run with power for `n` steps. -/
theorem restore_cut {n : ℕ} (h : w.power = some n) :
    (restore lib p file host w).2.disk .factory =
        stepsOn ((roleSteps lib p file host w.disk w.mounts .factory).take n) (w.disk .factory) ∧
      (restore lib p file host w).2.disk .state =
        stepsOn ((roleSteps lib p file host w.disk w.mounts .state).take
          (n - (roleSteps lib p file host w.disk w.mounts .factory).length)) (w.disk .state) := by
  unfold roleSteps
  cases hopen : opening lib p file host with
  | error e =>
    rw [restore_error hopen]
    simp
  | ok tree =>
    rw [restore_scripts hopen]
    exact two_cut _ _ h

/-- What is left of the partitions by a run that nothing cuts off, and when it returns. -/
theorem restore_whole (h : w.power = none) :
    (restore lib p file host w).2.disk .factory =
        stepsOn (roleSteps lib p file host w.disk w.mounts .factory) (w.disk .factory) ∧
      (restore lib p file host w).2.disk .state =
        stepsOn (roleSteps lib p file host w.disk w.mounts .state) (w.disk .state) ∧
      ((restore lib p file host w).1 = .ret () ↔ ∃ tree, opening lib p file host = .ok tree ∧
        ∀ role ∈ restored, (roleScript lib p host tree role (w.disk role) (w.mounts role)).error = none) := by
  unfold roleSteps
  cases hopen : opening lib p file host with
  | error e =>
    rw [restore_error hopen]
    simp
  | ok tree =>
    rw [restore_scripts hopen]
    simpa [restored] using two_whole _ _ h

/-- A destination that is there is left alone by every run over files and directories, wherever it
ends. -/
theorem restore_untouched (w : Machine) (hplain : ∀ tree, opening lib p file host = .ok tree → ∀ role, Plain tree role) :
    Untouched p w.disk (restore lib p file host w).2.disk := by
  have hquiet : ∀ role, (w.disk role).find (destination p role) ≠ none →
      ∀ s ∈ roleSteps lib p file host w.disk w.mounts role, Quiet (destination p role) s := by
    intro role hthere s hs
    unfold roleSteps at hs
    have hscript : ∀ tree role, Plain tree role → (w.disk role).find (destination p role) ≠ none →
        ∀ s ∈ (roleScript lib p host tree role (w.disk role) (w.mounts role)).steps,
          Quiet (destination p role) s :=
      fun tree role hplain hthere => roleScript_quiet hplain fun h => hthere h.1.1
    split at hs
    · cases hs
    · rename_i tree hopen
      cases role with
      | factory => exact hscript tree .factory (hplain tree hopen _) hthere s hs
      | state =>
        simp only at hs
        split at hs
        · cases hs
        · exact hscript tree .state (hplain tree hopen _) hthere s hs
      | data => cases hs
  have hsome : ∀ role ∈ restored, ∃ l ⊆ roleSteps lib p file host w.disk w.mounts role,
      (restore lib p file host w).2.disk role = stepsOn l (w.disk role) := by
    intro role hrole
    cases hpower : w.power with
    | none =>
      obtain ⟨hf, hs, -⟩ := @restore_whole lib p file host w hpower
      rcases List.mem_cons.mp hrole with rfl | hrole
      · exact ⟨_, fun _ h => h, hf⟩
      · rw [List.mem_singleton.mp hrole]
        exact ⟨_, fun _ h => h, hs⟩
    | some n =>
      obtain ⟨hf, hs⟩ := @restore_cut lib p file host w n hpower
      rcases List.mem_cons.mp hrole with rfl | hrole
      · exact ⟨_, List.take_subset _ _, hf⟩
      · rw [List.mem_singleton.mp hrole]
        exact ⟨_, List.take_subset _ _, hs⟩
  intro role hrole hthere r
  obtain ⟨l, hl, hd⟩ := hsome role hrole
  rw [hd]
  exact (stepsOn_quiet (fun s hs => hquiet role hthere s (hl hs)) (w.disk role)).below r

end Runs

/-! ### The second run -/

/-- The manifest and the policy name one target. -/
def SameTarget (manifest : List (Text × Json)) (p : Boot.Policy) : Prop :=
  ∃ theirs ours, manifest.lookup (text "target") = some theirs ∧ p.target = some ours ∧
    equal theirs ours = true

/-- The partitions are there and not mounted; at most an empty tmpfs stands in their place. -/
structure Unmounted (host : Host) (mounts : Role → List Text) : Prop where
  devices : host.devices.complete = true
  nodes : (host.listing.nodes.filter fun n => roles.any fun role => host.devices role == some n.name).length =
    roles.length
  free : ∀ n ∈ host.listing.nodes, (∃ role ∈ roles, host.devices role = some n.name) → n.mounted = false
  targets : ∀ role, mounts role = tmpfs ∨ mounts role = []

theorem opening_ok {lib : Reader} {p : Boot.Policy} {file : BackupFile} {host : Host}
    {manifest : List (Text × Json)} {tree : Disk} (hverify : verifyArchive lib file = .ok manifest)
    (h : opening lib p file host = .ok tree) :
    SameTarget manifest p ∧ ∃ again, lib.getmembers .any file.content = .ok again ∧ lib.unpack again = .ok tree := by
  unfold opening at h
  cases hours : p.target with
  | none =>
    rw [hours] at h
    simp only [bind_ok, reduceCtorEq, false_and, exists_false, and_false] at h
  | some ours =>
    simp only [hours, bind_ok, hverify, Except.ok.injEq, exists_eq_left', Boot.require_ok] at h
    obtain ⟨-, -, theirs, htheirs, -, hequal, -, -, again, hagain, htree⟩ := h
    refine ⟨⟨theirs, ours, ?_, hours, hequal⟩, again, hagain, htree⟩
    unfold item at htheirs
    split at htheirs
    · rename_i v hv
      cases htheirs
      exact hv
    · cases htheirs

/-- Every run extracts the same. -/
theorem opening_same {lib : Reader} {p : Boot.Policy} {file : BackupFile} {host : Host}
    {manifest : List (Text × Json)} {again : List Member} {tree : Disk}
    (hagain : lib.getmembers .any file.content = .ok again) (htree : lib.unpack again = .ok tree)
    (hverify : verifyArchive lib file = .ok manifest) (tree' : Disk) (h : opening lib p file host = .ok tree') :
    tree' = tree := by
  obtain ⟨-, again', hagain', htree'⟩ := opening_ok hverify h
  rw [hagain] at hagain'
  cases hagain'
  rw [htree] at htree'
  exact (Except.ok.inj htree').symm

theorem opening_unmounted {lib : Reader} {p : Boot.Policy} {file : BackupFile} {host : Host}
    {manifest : List (Text × Json)} {again : List Member} {tree : Disk}
    {mounts : Role → List Text} (hverify : verifyArchive lib file = .ok manifest)
    (hagain : lib.getmembers .any file.content = .ok again) (htree : lib.unpack again = .ok tree)
    (hu : Unmounted host mounts) (ht : SameTarget manifest p) : opening lib p file host = .ok tree := by
  obtain ⟨theirs, ours, htheirs, hours, hequal⟩ := ht
  have hnodes : ((host.listing.nodes.filter fun n => roles.any fun role =>
      host.devices role == some n.name).length == roles.length &&
      (host.listing.nodes.filter fun n => roles.any fun role =>
        host.devices role == some n.name).all fun n => !n.mounted) = true := by
    rw [Bool.and_eq_true, beq_iff_eq, List.all_eq_true]
    refine ⟨hu.nodes, ?_⟩
    intro n hn
    obtain ⟨hn, hrole⟩ := List.mem_filter.mp hn
    obtain ⟨role, hr, he⟩ := List.any_eq_true.mp hrole
    rw [hu.free n hn ⟨role, hr, beq_iff_eq.mp he⟩]
    rfl
  have hitem : item manifest (text "target") = .ok theirs := by rw [item, htheirs]
  unfold opening
  simp only [bind_ok, hverify, hagain, hours, hitem, Except.ok.injEq, exists_eq_left', Boot.require_ok]
  exact ⟨(), hu.devices, (), hequal, (), hnodes, htree⟩

theorem roleSteps_eq {lib : Reader} {p : Boot.Policy} {file : BackupFile} {host : Host} {tree : Disk}
    {disk : Role → Disk} {mounts : Role → List Text} (hopen : opening lib p file host = .ok tree)
    (herror : ∀ role ∈ restored, (roleScript lib p host tree role (disk role) (mounts role)).error = none) {role : Role}
    (hrole : role ∈ restored) : roleSteps lib p file host disk mounts role =
      (roleScript lib p host tree role (disk role) (mounts role)).steps := by
  have hfactory := herror .factory (by simp [restored])
  rcases List.mem_cons.mp hrole with rfl | hrole
  · rw [roleSteps, hopen]
  · rw [List.mem_singleton.mp hrole, roleSteps, hopen]
    simp [hfactory]

theorem timeline_eq {lib : Reader} {p : Boot.Policy} {file : BackupFile} {host : Host} {tree : Disk}
    {disk : Role → Disk} {mounts : Role → List Text} (hopen : opening lib p file host = .ok tree)
    (herror : ∀ role ∈ restored, (roleScript lib p host tree role (disk role) (mounts role)).error = none) :
    timeline lib p file host disk mounts = restored.flatMap fun role =>
      (roleScript lib p host tree role (disk role) (mounts role)).steps.map fun s => (role, s) := by
  unfold timeline
  exact List.flatMap_congr fun role hrole => by rw [roleSteps_eq hopen herror hrole]

theorem source_archived {members : List Member} (hv : Verified members) (role : Role) :
    archived members (source role) ≠ none := by
  have hmember : ∀ m ∈ members, archived members m.path ≠ none := by
    intro m hm
    rw [archived_of_mem hv.nodup hm]
    simp
  by_cases hstate : role = .state
  · obtain ⟨m, hm, hname, -⟩ := hv.documents ACTIVE (by simp)
    have habove : [text "settings"] ∈ ancestors m.path := by
      rw [Member.path, hname]
      decide
    rw [source, if_pos hstate]
    unfold archived
    split
    · simp
    · rw [if_pos]
      · simp
      · rw [List.any_eq_true]
        exact ⟨m, hm, decide_eq_true habove⟩
  · obtain ⟨m, hm, hname, -⟩ := hv.documents PRODUCT (by simp)
    have hpath : m.path = [PRODUCT] := by
      rw [Member.path, hname]
      decide
    rw [source, if_neg hstate, ← hpath]
    exact hmember m hm

/-! ### The archive opened again -/

/-- The tree has at the source of the role what the members hold. -/
def Reads (members : List Member) (tree : Disk) (role : Role) : Prop :=
  ∀ r, tree.find (source role ++ r) = (archived members (source role ++ r)).map .stored

/-- Opened for the restore, the archive gives both roles what the verification read. -/
def ReadsAgain (lib : Reader) (file : BackupFile) (members : List Member) : Prop :=
  ∃ again tree, lib.getmembers .any file.content = .ok again ∧ lib.unpack again = .ok tree ∧
    ∀ role ∈ restored, Reads members tree role

/-- No file that the restore extracts has the digest of another one that was verified at its place. -/
def Distinguishes (lib : Reader) (file : BackupFile) (members : List Member) : Prop :=
  ∀ again tree, lib.getmembers .any file.content = .ok again → lib.unpack again = .ok tree →
    ∀ role ∈ restored, ∀ r data data', archived members (source role ++ r) = some (.file data) →
      tree.find (source role ++ r) = some (.stored (.file data')) → lib.sha256 data = lib.sha256 data' → data = data'

/-- An archive that is unpacked as it is read gives every role what it holds. -/
theorem unpackPlain_reads {members : List Member} (hv : Verified members) :
    ∃ tree, unpackPlain members = .ok tree ∧ ∀ role, Reads members tree role := by
  obtain ⟨t, ht, hextracted⟩ := extractAll_ok hv
  refine ⟨t.map .stored, by rw [unpackPlain, bind_of_ok ht]; rfl, ?_⟩
  intro role r
  rw [Tree.find_map, hextracted]

section Again

variable {lib : Reader} {p : Boot.Policy} {host : Host} {members : List Member} {tree : Disk} {role : Role} {d : Disk}

theorem Reads.plain (h : Reads members tree role) (hsource : archived members (source role) ≠ none) : Plain tree role := by
  constructor
  · have hroot := h []
    rw [List.append_nil] at hroot
    rw [hroot]
    simpa using hsource
  · intro r e he
    rw [h r] at he
    obtain ⟨s, -, rfl⟩ := Option.map_eq_some_iff.mp he
    exact ⟨s, rfl⟩

theorem holds_iff (h : Reads members tree role) : Holds p members role d ↔ Copied p tree role d := by
  unfold Holds Copied
  simp only [h _]

theorem image_stored {c : Copier} {q : List Text} {e : Entry} {s : Stored} : c.image q e = .stored s ↔ e = .stored s := by
  obtain _ | _ | _ := e
  all_goals simp [Copier.image]

theorem digestOf_eq {s s' : Stored} (h : digestOf lib s = digestOf lib s')
    (hfile : ∀ data data', s = .file data → s' = .file data' → lib.sha256 data = lib.sha256 data' → data = data') :
    s = s' := by
  obtain data | _ := s
  · obtain data' | _ := s'
    · rw [hfile data data' rfl rfl (Option.some.inj h)]
    · cases h
  · obtain data' | _ := s'
    · cases h
    · rfl

/-- A destination that compares as equal and holds the backup was compared with the backup. -/
theorem compared_reads (hd : Holds p members role d) (h : compare lib p tree role d = .ok ())
    (hfile : ∀ r data data', archived members (source role ++ r) = some (.file data) →
      tree.find (source role ++ r) = some (.stored (.file data')) → lib.sha256 data = lib.sha256 data' → data = data') :
    Reads members tree role := by
  obtain ⟨hplain, -, hsame⟩ := compare_ok.mp h
  intro r
  have hr := hsame r
  rw [hd r] at hr
  cases ha : archived members (source role ++ r) with
  | none =>
    rw [ha] at hr
    exact Option.map_eq_none_iff.mp hr.symm
  | some s =>
    rw [ha] at hr
    obtain ⟨e, he, hdigest⟩ := Option.map_eq_some_iff.mp hr.symm
    obtain ⟨s', rfl⟩ := hplain.stored r e he
    have hs : s = s' := @digestOf_eq lib _ _ hdigest.symm fun data data' h h' =>
      hfile r data data' (h ▸ ha) (h' ▸ he)
    rw [he, hs]
    rfl

/-- A copy that holds the backup is one of the backup. -/
theorem copied_reads (c : Copier) (hd : Loose p role d) (hnone : d.find (destination p role) = none)
    (h : Holds p members role (stepsOn (c.copy (destination p role) (tree.subtree (source role))) d)) :
    Reads members tree role := by
  intro r
  have hr := h r
  rw [copy_find c hd hnone] at hr
  cases ha : archived members (source role ++ r) with
  | none =>
    rw [ha] at hr
    exact Option.map_eq_none_iff.mp hr
  | some s =>
    rw [ha] at hr
    obtain ⟨e, he, himage⟩ := Option.map_eq_some_iff.mp hr
    rw [he, image_stored.mp himage]
    rfl

theorem Holds.extends {d' : Disk} (h : Extends (destination p role) d d') :
    Holds p members role d' ↔ Holds p members role d := by
  unfold Holds
  simp only [h.below]

/-- What `cp -a` does: a copy to where nothing is, or a link or a special file in the place of a link. -/
theorem copyTree_ok {c : Copier} {steps : List Step} (h : copyTree p c tree role d = .ok steps) :
    d.find (destination p role) = none ∧ steps = c.copy (destination p role) (tree.subtree (source role)) ∨
      d.find (destination p role) ≠ none ∧ ∃ e, (∀ s, e ≠ .stored s) ∧
        steps = [.replace (destination p role) (c.image [] e)] := by
  unfold copyTree at h
  split at h
  · cases h
  · rename_i hdisk
    cases h
    exact .inl ⟨hdisk, rfl⟩
  · cases h
  · rename_i e x hnot hs hdisk
    cases h
    refine .inr ⟨by simp [hdisk], e, ?_, rfl⟩
    rintro s rfl
    exact hnot s rfl

/-- What took the place of a link and holds the backup is a file or a directory. -/
theorem Holds.not_replaced {c : Copier} {e : Entry} (hsource : archived members (source role) ≠ none)
    (hdisk : d.find (destination p role) ≠ none)
    (h : Holds p members role (stepsOn [.replace (destination p role) (c.image [] e)] d)) : ∃ s, e = .stored s := by
  obtain ⟨s, hs⟩ := Option.ne_none_iff_exists'.mp hsource
  obtain ⟨x, hx⟩ := Option.ne_none_iff_exists'.mp hdisk
  have hroot := h []
  rw [List.append_nil, List.append_nil, hs, stepsOn_cons, stepsOn_nil, Step.onDisk, Tree.find_change, if_pos rfl, hx] at hroot
  exact ⟨s, image_stored.mp (Option.some.inj hroot)⟩

/-- A run that comes to its end has compared the destination or copied the source. -/
theorem roleScript_ended {mounts : List Text} (h : (roleScript lib p host tree role d mounts).error = none) :
    (there p role d = true ∧ compare lib p tree role d = .ok () ∧
      Extends (destination p role) d (stepsOn (roleScript lib p host tree role d mounts).steps d)) ∨
    ∃ d' steps, there p role d = false ∧ Extends (destination p role) d d' ∧
      copyTree p host.copier tree role d = .ok steps ∧
      Extends (destination p role) (stepsOn steps d') (stepsOn (roleScript lib p host tree role d mounts).steps d) := by
  have hopen : mounts = tmpfs ∨ mounts = [] := by
    by_contra hnot
    rw [roleScript, if_neg hnot] at h
    cases h
  rw [roleScript_open hopen] at h ⊢
  simp only [stepsOn_append (_ ++ _)]
  have hlast : ∀ s ∈ [Step.umount], Quiet (destination p role) s := by simp [Quiet]
  have hfirst := stepsOn_quiet (opening_quiet (destination p role) mounts) d
  generalize stepsOn (clearSteps mounts ++ [Step.mount]) d = d₁ at hfirst
  unfold copyScript at h ⊢
  by_cases hthere : there p role d = true
  · simp only [if_pos hthere] at h ⊢
    cases hcompare : compare lib p tree role d with
    | ok u =>
      refine .inl ⟨hthere, rfl, hfirst.trans ?_⟩
      exact (stepsOn_quiet (settleSteps_quiet _) _).trans (stepsOn_quiet hlast _)
    | error e =>
      simp only [hcompare] at h
      cases h
  · simp only [if_neg hthere] at h ⊢
    have hparents : ∀ s ∈ (parentsScript (ancestors (destination p role)) d).steps,
        Quiet (destination p role) s := parentsScript_quiet fun _ hq => hq
    unfold Script.andThen copyTreeScript at h ⊢
    cases hp : (parentsScript (ancestors (destination p role)) d).error with
    | some e =>
      simp only [hp] at h
      cases h
    | none =>
      cases hcopy : copyTree p host.copier tree role d with
      | error e =>
        simp only [hp, hcopy] at h
        cases h
      | ok steps =>
        right
        refine ⟨_, steps, by simpa using hthere, hfirst.trans (stepsOn_quiet hparents d₁), rfl, ?_⟩
        simp only [stepsOn_append]
        exact (stepsOn_quiet (settleSteps_quiet _) _).trans (stepsOn_quiet hlast _)

/-- A run that comes to its end with the backup on the disk has extracted the backup. -/
theorem restored_reads {mounts : List Text} (hd : Loose p role d) (hsource : archived members (source role) ≠ none)
    (hfile : ∀ r data data', archived members (source role ++ r) = some (.file data) →
      tree.find (source role ++ r) = some (.stored (.file data')) → lib.sha256 data = lib.sha256 data' → data = data')
    (herror : (roleScript lib p host tree role d mounts).error = none)
    (h : Holds p members role (stepsOn (roleScript lib p host tree role d mounts).steps d)) :
    Reads members tree role := by
  rcases roleScript_ended herror with ⟨-, hcompare, hx⟩ | ⟨d', steps, -, hbefore, hcopy, hafter⟩
  · rw [Holds.extends hx] at h
    exact compared_reads h hcompare hfile
  · rw [Holds.extends hafter] at h
    have hdest : d'.find (destination p role) = d.find (destination p role) := by simpa using hbefore.below []
    rcases copyTree_ok hcopy with ⟨hdisk, rfl⟩ | ⟨hdisk, e, hnot, rfl⟩
    · exact copied_reads host.copier (Loose.extends hbefore hd) (hdest.trans hdisk) h
    · exact absurd (h.not_replaced hsource (hdest ▸ hdisk)) (by simpa using hnot)

end Again

section Timeline

variable {lib : Reader} {p : Boot.Policy} {file : BackupFile} {host : Host} {disk : Role → Disk}
  {mounts : Role → List Text} {n : ℕ}

theorem take_timeline : (timeline lib p file host disk mounts).take n =
    ((roleSteps lib p file host disk mounts .factory).take n).map (fun s => (Role.factory, s)) ++
      ((roleSteps lib p file host disk mounts .state).take
        (n - (roleSteps lib p file host disk mounts .factory).length)).map fun s => (Role.state, s) := by
  simp [timeline, restored, List.take_append, List.map_take]

theorem drop_timeline : (timeline lib p file host disk mounts).drop n =
    ((roleSteps lib p file host disk mounts .factory).drop n).map (fun s => (Role.factory, s)) ++
      ((roleSteps lib p file host disk mounts .state).drop
        (n - (roleSteps lib p file host disk mounts .factory).length)).map fun s => (Role.state, s) := by
  simp [timeline, restored, List.drop_append, List.map_drop]

theorem cutInCopy_iff : (∀ role, ¬ CutInCopy (timeline lib p file host disk mounts) n role) ↔
    ¬ Halfway (roleSteps lib p file host disk mounts .factory) n ∧
      ¬ Halfway (roleSteps lib p file host disk mounts .state)
        (n - (roleSteps lib p file host disk mounts .factory).length) := by
  have hfactory : CutInCopy (timeline lib p file host disk mounts) n .factory ↔
      Halfway (roleSteps lib p file host disk mounts .factory) n := by
    unfold CutInCopy Halfway
    rw [take_timeline, drop_timeline]
    simp [-List.map_take, -List.map_drop]
  have hstate : CutInCopy (timeline lib p file host disk mounts) n .state ↔
      Halfway (roleSteps lib p file host disk mounts .state)
        (n - (roleSteps lib p file host disk mounts .factory).length) := by
    unfold CutInCopy Halfway
    rw [take_timeline, drop_timeline]
    simp [-List.map_take, -List.map_drop]
  have hdata : ¬ CutInCopy (timeline lib p file host disk mounts) n .data := by
    unfold CutInCopy
    rw [take_timeline]
    simp [-List.map_take, -List.map_drop]
  rw [← hfactory, ← hstate]
  constructor
  · intro h
    exact ⟨h .factory, h .state⟩
  · rintro ⟨hf, hs⟩ role
    cases role with
    | factory => exact hf
    | state => exact hs
    | data => exact hdata

end Timeline

/-! ### Repeating a restore -/

/-- What a run with power for `n` steps leaves. -/
def left (lib : Reader) (p : Boot.Policy) (file : BackupFile) (host : Host) (disk : Role → Disk)
    (mounts : Role → List Text) (n : ℕ) : Role → Disk :=
  (restore lib p file host ⟨disk, mounts, some n⟩).2.disk

theorem left_scripts {lib : Reader} {p : Boot.Policy} {file : BackupFile} {host : Host} {disk : Role → Disk}
    {mounts : Role → List Text} {n : ℕ} {tree : Disk} (hopen : opening lib p file host = .ok tree) :
    left lib p file host disk mounts n =
      ((perform .factory (roleScript lib p host tree .factory (disk .factory) (mounts .factory)) >>= fun _ =>
        perform .state (roleScript lib p host tree .state (disk .state) (mounts .state)))
          ⟨disk, mounts, some n⟩).2.disk := by
  unfold left
  rw [restore_scripts hopen]

/-- A second run completes what the first one left, and neither run changes a destination that is
there. -/
structure Repeats (lib : Reader) (p : Boot.Policy) (file : BackupFile) (members : List Member)
    (host host' : Host) (disk : Role → Disk) (mounts mounts' : Role → List Text) (n : ℕ) : Prop where
  completes : ∃ w, restore lib p file host' ⟨left lib p file host disk mounts n, mounts', none⟩ = (.ret (), w) ∧
    ∀ role ∈ restored, Holds p members role (w.disk role)
  untouched : Untouched p disk (left lib p file host disk mounts n)
  untouchedAgain : Untouched p (left lib p file host disk mounts n)
    (restore lib p file host' ⟨left lib p file host disk mounts n, mounts', none⟩).2.disk

section Left

variable {lib : Reader} {p : Boot.Policy} {file : BackupFile} {host : Host} {tree : Disk}
  {disk : Role → Disk} {mounts : Role → List Text}

/-- The steps of a role are those of its script, or none. -/
theorem roleSteps_cases (role : Role) : roleSteps lib p file host disk mounts role = [] ∨
    ∃ tree, opening lib p file host = .ok tree ∧ roleSteps lib p file host disk mounts role =
      (roleScript lib p host tree role (disk role) (mounts role)).steps := by
  unfold roleSteps
  cases opening lib p file host with
  | error e => exact .inl rfl
  | ok tree =>
    cases role with
    | factory => exact .inr ⟨tree, rfl, rfl⟩
    | state =>
      simp only
      split
      · exact .inl rfl
      · exact .inr ⟨tree, rfl, rfl⟩
    | data => exact .inl rfl

theorem left_eq (n : ℕ) {role : Role} (hrole : role ∈ restored) : ∃ k, left lib p file host disk mounts n role =
    stepsOn ((roleSteps lib p file host disk mounts role).take k) (disk role) := by
  obtain ⟨hfactory, hstate⟩ := @restore_cut lib p file host ⟨disk, mounts, some n⟩ n rfl
  rcases List.mem_cons.mp hrole with rfl | hrole
  · exact ⟨_, hfactory⟩
  · rw [List.mem_singleton.mp hrole]
    exact ⟨_, hstate⟩

theorem left_loose (hloose : ∀ role, Loose p role (disk role)) (n : ℕ) :
    ∀ role ∈ restored, Loose p role (left lib p file host disk mounts n role) := by
  intro role hrole
  obtain ⟨k, hk⟩ := @left_eq lib p file host disk mounts n role hrole
  rw [hk]
  rcases @roleSteps_cases lib p file host disk mounts role with hnil | ⟨tree, -, hsteps⟩
  · rw [hnil, List.take_nil]
    exact hloose role
  · rw [hsteps]
    exact (roleScript_rooted (mounts role)).loose (hloose role) k

/-- What a part of the first run leaves of a role. -/
theorem left_ready (hplain : ∀ role, Plain tree role) (hloose : ∀ role, Loose p role (disk role))
    (hopen : ∀ tree', opening lib p file host = .ok tree' → tree' = tree) (role : Role) (k : ℕ) :
    Ready p tree role (stepsOn ((roleSteps lib p file host disk mounts role).take k) (disk role)) ↔
      Ready p tree role (disk role) ∧ ¬ Halfway (roleSteps lib p file host disk mounts role) k := by
  rcases @roleSteps_cases lib p file host disk mounts role with hnil | ⟨tree', hopen', hsteps⟩
  · rw [hnil, List.take_nil]
    simp [Halfway]
  · have hsame := hopen tree' hopen'
    subst hsame
    rw [hsteps]
    exact interrupted (hplain role) (hloose role) (mounts role) k

/-- A whole run over unmounted partitions restores both roles exactly when they are ready. -/
theorem whole_restores (hopen : opening lib p file host = .ok tree) (hplain : ∀ role, Plain tree role)
    (hloose : ∀ role ∈ restored, Loose p role (disk role)) (hm : ∀ role, mounts role = tmpfs ∨ mounts role = []) :
    ((∀ role ∈ restored, (roleScript lib p host tree role (disk role) (mounts role)).error = none) ∧
        ∀ role ∈ restored, Copied p tree role (stepsOn (roleSteps lib p file host disk mounts role) (disk role))) ↔
      ∀ role ∈ restored, Ready p tree role (disk role) := by
  constructor
  · rintro ⟨herror, hcopied⟩ role hrole
    have hc := hcopied role hrole
    rw [roleSteps_eq hopen herror hrole] at hc
    exact (restores_iff (hm role) (hplain role) (hloose role hrole)).mp ⟨herror role hrole, hc⟩
  · intro hready
    have hboth : ∀ role ∈ restored,
        (roleScript lib p host tree role (disk role) (mounts role)).error = none ∧
          Copied p tree role (stepsOn (roleScript lib p host tree role (disk role) (mounts role)).steps (disk role)) :=
      fun role hrole => (restores_iff (hm role) (hplain role) (hloose role hrole)).mpr (hready role hrole)
    have herror := fun role hrole => (hboth role hrole).1
    refine ⟨herror, ?_⟩
    intro role hrole
    rw [roleSteps_eq hopen herror hrole]
    exact (hboth role hrole).2

/-- The two partitions after the cut are ready if they were ready and no copy was cut. -/
theorem left_restored (hplain : ∀ role, Plain tree role) (hloose : ∀ role, Loose p role (disk role))
    (hopen : ∀ tree', opening lib p file host = .ok tree' → tree' = tree) (n : ℕ) :
    (∀ role ∈ restored, Ready p tree role (left lib p file host disk mounts n role)) ↔
      (∀ role ∈ restored, Ready p tree role (disk role)) ∧
        ∀ role, ¬ CutInCopy (timeline lib p file host disk mounts) n role := by
  obtain ⟨hfactory, hstate⟩ := @restore_cut lib p file host ⟨disk, mounts, some n⟩ n rfl
  have hrf := @left_ready lib p file host tree disk mounts hplain hloose hopen .factory n
  have hrs := @left_ready lib p file host tree disk mounts hplain hloose hopen .state
    (n - (roleSteps lib p file host disk mounts .factory).length)
  rw [← hfactory] at hrf
  rw [← hstate] at hrs
  rw [cutInCopy_iff]
  simp only [restored, List.forall_mem_cons, List.not_mem_nil, false_implies, implies_true, and_true]
  refine (and_congr hrf hrs).trans ?_
  tauto

/-- A second run that completes with the backup on the disk has extracted the backup. -/
theorem completed_reads {members : List Member} (hv : Verified members)
    (hdistinct : Distinguishes lib file members) {again : List Member}
    (hagain : lib.getmembers .any file.content = .ok again) (htree : lib.unpack again = .ok tree)
    (hopen : opening lib p file host = .ok tree) (hloose : ∀ role ∈ restored, Loose p role (disk role))
    (herror : ∀ role ∈ restored, (roleScript lib p host tree role (disk role) (mounts role)).error = none)
    (hholds : ∀ role ∈ restored,
      Holds p members role (stepsOn (roleSteps lib p file host disk mounts role) (disk role))) :
    ∀ role ∈ restored, Reads members tree role := by
  intro role hrole
  have hrun := hholds role hrole
  rw [roleSteps_eq hopen herror hrole] at hrun
  exact restored_reads (hloose role hrole) (source_archived hv role)
    (hdistinct again tree hagain htree role hrole) (herror role hrole) hrun

end Left

theorem Reads.all {members : List Member} {tree : Disk} (h : ∀ role ∈ restored, Reads members tree role) (role : Role) :
    Reads members tree role := by
  cases role with
  | factory => exact h .factory (by simp [restored])
  | state => exact h .state (by simp [restored])
  | data => exact h .factory (by simp [restored])

namespace Sample

def active : Bytes := Tar.bytesOf (text "\x7b\"volume\": 7\x7d")
def product : Bytes := Tar.bytesOf (text "\x7b\"serial\": \"A1\"\x7d")

def activeDigest : Text := text "ee906325ab00b25a23142ee69e23aea8ad03e5e7d086516a879edbfabf912314"
def productDigest : Text := text "a9feaff52b959cfca411987ad4a3c0517d8154101e97a7fe8e48a7befa40e6de"
def emptyDigest : Text := text "e3b0c44298fc1c149afbf4c8996fb92427ae41e4649b934ca495991b7852b855"

def manifest : List (Text × Json) :=
  [(text "schema_version", .int 1), (text "target", .str (text "test")),
    (text "sha256", .obj [(PRODUCT, .str productDigest), (ACTIVE, .str activeDigest)])]

def sumText (name digest : Text) : Text := text "\"" ++ name ++ text "\": \"" ++ digest ++ text "\""

/-- What `json.dumps` makes of a manifest with these sums. -/
def manifestText (sums : List Text) : Text :=
  text "\x7b\"schema_version\": 1, \"target\": \"test\", \"sha256\": \x7b" ++ (text ", ").intercalate sums ++ text "\x7d\x7d"

def manifestData : Bytes := Tar.bytesOf (manifestText [sumText PRODUCT productDigest, sumText ACTIVE activeDigest])

def members : List Member :=
  [.plain (text "settings") 0o755 .directory [], .plain PRODUCT 0o644 .regular product,
    .plain ACTIVE 0o600 .regular active, .plain MANIFEST 0o644 .regular manifestData]

/-- The entry of the tar file for a member; every link of the samples is one to the settings. -/
def entry (m : Member) : Tar.Header × Bytes :=
  let (name, flag, target) := match m.kind with
    | .regular => (m.name, text "0", [])
    | .directory => (m.name ++ text "/", text "5", [])
    | .other => (m.name, text "1", ACTIVE)
  (⟨name, m.mode.toNat, m.size.toNat, 1704067200, flag, target⟩, m.data)

/-- The time of a file is a float, which has a header of its own. -/
def timeHeader : Tar.Header × Bytes :=
  (⟨text "././@PaxHeader", 0, 22, 0, text "x", []⟩, Tar.bytesOf (text "22 mtime=1704067200.0\n"))

def packed (members : List Member) : Bytes := Tar.archive (members.flatMap fun m => [timeHeader, entry m])

/-- The library on the files of the sample. -/
def reader : Reader where
  sha256 data := if data = active then activeDigest else if data = product then productDigest else emptyDigest
  load data := .ok (if data = active then .obj [(text "volume", .int 7)]
    else if data = product then .obj [(text "serial", .str (text "A1"))] else .obj manifest)
  getmembers _ _ := .ok members
  unpack := unpackPlain

def file : BackupFile := ⟨true, packed members⟩

def role : Boot.RoleSpec := ⟨[], 0, false⟩

def policy : Boot.Policy where
  disk := text "/dev/sda"
  role := fun _ => role
  order := [.factory, .state, .data]
  stateTmpfsMib := .int 32
  settings := text "msa/settings"
  productInfo := text "productInfo.json"
  resetJournal := text "mnc-system/state.json"
  journalDirectory := text "log/journal"
  runtimeRoot := text "/run/mnc"
  target := some (.str (text "test"))

def device (r : Role) : Text := match r with
  | .factory => text "/dev/sda1"
  | .state => text "/dev/sda2"
  | .data => text "/dev/sda3"

def node (r : Role) : Boot.Node := .node (device r) (text "part") none none none [none] []

def listing : Boot.Inventory where
  disks := [.node (text "/dev/sda") (text "disk") none none none [none] [node .factory, node .state, node .data]]
  named := by decide

/-- The shorter path first. -/
def Shorter (a b : List Text × Entry) : Prop := a.1.length ≤ b.1.length

instance : DecidableRel Shorter := fun a b => inferInstanceAs (Decidable (a.1.length ≤ b.1.length))

instance : Std.Total Shorter := ⟨fun a b => Nat.le_total a.1.length b.1.length⟩

instance : IsTrans (List Text × Entry) Shorter := ⟨fun _ _ _ => Nat.le_trans⟩

/-- A file is written at once. -/
def copier : Copier where
  order l := l.insertionSort Shorter
  perm l := List.perm_insertionSort Shorter l
  parents := by
    intro l hnodup
    have hsorted := List.pairwise_insertionSort Shorter l
    have hkeys : ((l.insertionSort Shorter).map Prod.fst).Nodup :=
      ((List.perm_insertionSort Shorter l).map Prod.fst).nodup_iff.mpr hnodup
    refine (hsorted.and (List.pairwise_map.mp hkeys)).imp ?_
    rintro a b ⟨hle, hne⟩ hbegins
    exact hne (hbegins.eq_of_length (Nat.le_antisymm hbegins.length_le hle)).symm
  chunks data := if data = [] then [] else [data]
  whole data := by
    split
    · rename_i h
      rw [h]
      rfl
    · simp
  nonempty data := by
    split <;> simp_all
  leads _ := none

def host : Host where
  devices := fun r => some (device r)
  listing := listing
  selinux := true
  copier := copier

def blank (_ : Role) : Partition where
  disk := Tree.empty
  closed := by
    intro path e h
    cases h

def unmounted (_ : Role) : List Text := []

theorem packed_length {members : List Member}
    (h : ((members.flatMap fun m => [timeHeader, entry m]).map fun entry => entry.2.length + 1024).sum ≤ 16 * 1024 * 1024) :
    (packed members).length ≤ 32 * 1024 * 1024 :=
  (Tar.length_archive_le _).trans ((Nat.add_le_add_right h 11264).trans (by decide))

set_option maxRecDepth 4000 in
theorem verified : verifyArchive reader file = .ok manifest := by
  have hlength : file.content.length ≤ 32 * 1024 * 1024 := packed_length (by decide)
  have hregular : Boot.require file.regular (text "backup is not a regular archive") = .ok () := rfl
  unfold verifyArchive
  rw [bind_of_ok hregular, bind_of_ok (a := ()) (Boot.require_ok.mpr (decide_eq_true hlength))]
  rfl

/-- What is extracted. -/
def tree : Disk where
  entries := [([text "settings"], .stored .directory), ([PRODUCT], .stored (.file product)),
    ([text "settings", text "active.json"], .stored (.file active)), ([MANIFEST], .stored (.file manifestData))]
  nodup := by decide

theorem unpacked : reader.unpack members = .ok tree ∧ ∀ role, Reads members tree role := by
  obtain ⟨members', hmembers, hv⟩ := verifyArchive_ok verified
  cases hmembers
  obtain ⟨tree', htree, hreads⟩ := unpackPlain_reads hv
  have hsame : unpackPlain members = .ok tree := by rfl
  rw [htree] at hsame
  cases hsame
  exact ⟨htree, hreads⟩

theorem readsAgain : ReadsAgain reader file members :=
  ⟨members, tree, rfl, unpacked.1, fun role _ => unpacked.2 role⟩

theorem distinguishes : Distinguishes reader file members := by
  intro again tree' hagain htree role _ r data data' hdata hdata' _
  cases hagain
  rw [unpacked.1] at htree
  cases htree
  rw [unpacked.2 role r, hdata] at hdata'
  cases hdata'
  rfl

theorem host_unmounted : Unmounted host unmounted :=
  ⟨by decide, by decide, by decide, fun _ => .inr rfl⟩

theorem opened : opening reader policy file host = .ok tree :=
  opening_unmounted verified rfl unpacked.1 host_unmounted ⟨.str (text "test"), .str (text "test"), rfl, rfl, rfl⟩

end Sample

end Monutchee.Storage.Restore
