import Monutchee.Storage.Reformat
import Monutchee.Storage.Writing

/-!
# What a reformat leaves

A run of `reformat` that returns has put the backup on new file systems and nothing else beside it,
whatever the partitions held before and however often the archive was handed over. The labels it
wrote are those the next boot looks for, and with the archive of a `backup` the settings and the
product file are the ones that were backed up.
-/

namespace Monutchee.Storage.Reformat
open Monutchee.Lib Monutchee.Lib.Files
open Monutchee.Storage.Boot (Error Devices slashParts)
open Monutchee.Storage.Restore

/-! ### A restore that returns -/

section Returned

variable {lib : Reader} {p : Boot.Policy} {file : BackupFile} {host : Host} {role : Role}

theorem perform_returned {script : Script} {w w' : Restore.Machine} {u : Unit}
    (h : perform role script w = (.ret u, w')) : script.error = none ∧ w' = w.applyAll role script.steps := by
  obtain ⟨_, w₁, hsteps, hend⟩ := Act.bind_ret h
  rw [each_act_run] at hsteps
  split at hsteps
  · cases hsteps
    cases herror : script.error with
    | none =>
      rw [herror] at hend
      cases hend
      exact ⟨rfl, rfl⟩
    | some e =>
      rw [herror] at hend
      cases hend
  · cases hsteps

theorem restore_returned {w w' : Restore.Machine} {u : Unit} (h : restore lib p file host w = (.ret u, w')) :
    ∃ tree, opening lib p file host = .ok tree ∧
      (∀ role ∈ restored, (roleScript lib p host tree role (w.disk role) (w.mounts role)).error = none ∧
        w'.disk role = stepsOn (roleScript lib p host tree role (w.disk role) (w.mounts role)).steps (w.disk role)) ∧
      w'.disk .data = w.disk .data := by
  cases hopen : opening lib p file host with
  | error e =>
    rw [restore_error hopen] at h
    cases h
  | ok tree =>
    rw [restore_scripts hopen] at h
    obtain ⟨_, w₁, hfactory, hstate⟩ := Act.bind_ret h
    obtain ⟨hferror, rfl⟩ := perform_returned hfactory
    obtain ⟨hserror, rfl⟩ := perform_returned hstate
    refine ⟨tree, rfl, ?_, ?_⟩
    · intro role hrole
      rcases List.mem_cons.mp hrole with rfl | hrole
      · refine ⟨hferror, ?_⟩
        rw [(applyAll_other _ state_factory _).1, applyAll_disk]
      · rw [List.mem_singleton.mp hrole]
        refine ⟨hserror, ?_⟩
        rw [applyAll_disk, (applyAll_other _ factory_state _).1]
    · rw [(applyAll_other _ (by decide) _).1, (applyAll_other _ (by decide) _).1]

theorem opening_verified {tree : Disk} (h : opening lib p file host = .ok tree) :
    ∃ manifest members again, verifyArchive lib file = .ok manifest ∧ SameTarget manifest p ∧
      lib.getmembers .plain file.content = .ok members ∧ lib.getmembers .any file.content = .ok again ∧
      lib.unpack again = .ok tree := by
  have hverify : ∃ manifest, verifyArchive lib file = .ok manifest := by
    unfold opening at h
    simp only [bind_ok] at h
    obtain ⟨-, -, manifest, hmanifest, -⟩ := h
    exact ⟨manifest, hmanifest⟩
  obtain ⟨manifest, hmanifest⟩ := hverify
  obtain ⟨members, hmembers, -⟩ := verifyArchive_ok hmanifest
  obtain ⟨htarget, again, hagain, htree⟩ := opening_ok hmanifest h
  exact ⟨manifest, members, again, hmanifest, htarget, hmembers, hagain, htree⟩

/-! ### A new file system -/

theorem find_fresh (path : List Text) :
    fresh.find path = if path = [text "lost+found"] then some (.stored .directory) else none := by
  unfold fresh
  rw [Tree.find_add]
  rfl

theorem fresh_loose : Loose p role fresh := by
  intro hnone r
  rw [find_fresh] at hnone ⊢
  split at hnone
  · cases hnone
  · rename_i hdest
    split
    · rename_i hpath
      have hlength := congrArg List.length hpath
      have hpos : 0 < (destination p role).length := List.length_pos_iff.mpr (List.splitOn_ne_nil _ _)
      rw [List.length_append, List.length_singleton] at hlength
      have hnil : r = [] := List.length_eq_zero_iff.mp (by omega)
      rw [hnil, List.append_nil] at hpath
      exact absurd hpath hdest
    · rfl

theorem fresh_directory {path : List Text} {e : Entry} (h : fresh.find path = some e) : e = .stored .directory := by
  rw [find_fresh] at h
  split at h
  · exact (Option.some.inj h).symm
  · cases h

/-- What compares as equal to a part of a new file system is a directory, or nothing. -/
theorem compare_fresh {tree : Disk} (h : Restore.compare lib p tree role fresh = .ok ()) (r : List Text) :
    fresh.find (destination p role ++ r) = tree.find (source role ++ r) := by
  obtain ⟨hplain, -, hsame⟩ := compare_ok.mp h
  have hr := hsame r
  cases hfind : fresh.find (destination p role ++ r) with
  | none =>
    rw [hfind] at hr
    exact (Option.map_eq_none_iff.mp hr.symm).symm
  | some e =>
    rw [hfind, fresh_directory hfind] at hr
    obtain ⟨e', he', hdigest⟩ := Option.map_eq_some_iff.mp hr.symm
    obtain ⟨s, rfl⟩ := hplain.stored r e' he'
    have hs : s = .directory := @digestOf_eq lib _ _ hdigest fun data data' _ h' => by cases h'
    rw [he', fresh_directory hfind, hs]

/-- The destination holds what the source holds; what the copied links lead to is as it comes. -/
def Filled (p : Boot.Policy) (tree : Disk) (role : Role) (d : Disk) : Prop :=
  ∃ c : Copier, ∀ r, d.find (destination p role ++ r) = (tree.find (source role ++ r)).map (c.image r)

theorem Filled.extends {tree d d' : Disk} (h : Filled p tree role d) (hx : Extends (destination p role) d d') :
    Filled p tree role d' := by
  obtain ⟨c, hc⟩ := h
  exact ⟨c, fun r => by rw [hx.below r, hc r]⟩

theorem Filled.holds {tree d : Disk} {members : List Member} (h : Filled p tree role d)
    (hreads : Reads members tree role) : Holds p members role d := by
  obtain ⟨c, hc⟩ := h
  intro r
  rw [hc r, hreads r, Option.map_map]
  rfl

/-- A restore onto a new file system that comes to its end has copied what was extracted. -/
theorem fresh_filled {tree : Disk} {mounts : List Text}
    (herror : (roleScript lib p host tree role fresh mounts).error = none) :
    Filled p tree role (stepsOn (roleScript lib p host tree role fresh mounts).steps fresh) := by
  rcases roleScript_ended herror with ⟨-, hcompare, hx⟩ | ⟨d', steps, hthere, hbefore, hcopy, hafter⟩
  · have hsame : Filled p tree role fresh := by
      obtain ⟨hplain, -, -⟩ := compare_ok.mp hcompare
      refine ⟨host.copier, fun r => ?_⟩
      rw [compare_fresh hcompare]
      cases hr : tree.find (source role ++ r) with
      | none => rfl
      | some e => rw [Option.map_some, hplain.image host.copier hr]
    exact hsame.extends hx
  · have hnone : fresh.find (destination p role) = none := by
      by_contra hne
      obtain ⟨e, he⟩ := Option.ne_none_iff_exists'.mp hne
      rw [there, he, fresh_directory he] at hthere
      cases hthere
    obtain ⟨-, rfl⟩ := (copyTree_ok hcopy).resolve_right fun h => h.1 hnone
    have hdest : d'.find (destination p role) = none := by
      rw [← hnone]
      simpa using hbefore.below []
    have hfilled : Filled p tree role
        (stepsOn (host.copier.copy (destination p role) (tree.subtree (source role))) d') :=
      ⟨host.copier, copy_find host.copier (Loose.extends hbefore fresh_loose) hdest⟩
    exact hfilled.extends hafter

/-- Steps that write nowhere but to the destination and the directories above it. -/
def Local (dest : List Text) : Step → Prop
  | .parent q => q ∈ ancestors dest
  | .create q _ => dest <+: q
  | _ => True

theorem stepsOn_local {dest : List Text} {l : List Step} (h : ∀ s ∈ l, Local dest s) {d : Disk} {path : List Text}
    (hnew : (stepsOn l d).find path ≠ none) :
    d.find path ≠ none ∨ path ∈ ancestors dest ∨ dest <+: path := by
  induction l generalizing d with
  | nil => exact .inl hnew
  | cons s l ih =>
    have hlocal := h s (List.mem_cons_self ..)
    have hadd : ∀ q e, (d.add q e).find path ≠ none → d.find path ≠ none ∨ path = q := by
      intro q e hfind
      by_cases hq : path = q
      · exact .inr hq
      · rw [Tree.find_add, if_neg hq, Option.or_none] at hfind
        exact .inl hfind
    rcases ih (fun x hx => h x (List.mem_cons_of_mem _ hx)) hnew with hfind | hplace
    · cases s with
      | parent q =>
        rcases hadd q _ hfind with hfind | rfl
        · exact .inl hfind
        · exact .inr (.inl hlocal)
      | create q stored =>
        rcases hadd q _ hfind with hfind | rfl
        · exact .inl hfind
        · exact .inr (.inr hlocal)
      | write q chunk =>
        left
        intro hnone
        simp [Step.onDisk, Tree.find_change, hnone] at hfind
      | replace q e =>
        left
        intro hnone
        simp [Step.onDisk, Tree.find_change, hnone] at hfind
      | _ => exact .inl hfind
    · exact .inr hplace

theorem quiet_local {dest : List Text} {s : Step} (h : Quiet dest s) : Local dest s := by
  cases s with
  | parent q => exact h
  | create q stored => cases h
  | _ => trivial

theorem copy_local (c : Copier) {dest : List Text} {l : List (List Text × Entry)} :
    ∀ s ∈ c.copy dest l, Local dest s := by
  intro s hs
  obtain ⟨⟨q, (_ | data) | _ | _⟩, -, hx⟩ := List.mem_flatMap.mp hs
  case stored.file data =>
    rcases List.mem_cons.mp hx with rfl | hx
    · exact List.prefix_append _ _
    · obtain ⟨chunk, -, rfl⟩ := List.mem_map.mp hx
      trivial
  all_goals
    rw [List.mem_singleton.mp hx]
    exact List.prefix_append _ _

theorem copyTreeScript_local {tree d : Disk} :
    ∀ s ∈ (copyTreeScript p host tree role d).steps, Local (destination p role) s := by
  unfold copyTreeScript
  cases hcopy : copyTree p host.copier tree role d with
  | error e => simp
  | ok steps =>
    intro s hs
    rcases List.mem_append.mp hs with hs | hs
    · rcases copyTree_ok hcopy with ⟨-, rfl⟩ | ⟨-, e, -, rfl⟩
      · exact copy_local host.copier s hs
      · rw [List.mem_singleton.mp hs]
        trivial
    · exact quiet_local (settleSteps_quiet _ s hs)

theorem copyScript_local {tree d : Disk} :
    ∀ s ∈ (copyScript lib p host tree role d).steps, Local (destination p role) s := by
  have hparents : ∀ s ∈ (parentsScript (ancestors (destination p role)) d).steps, Local (destination p role) s :=
    fun s hs => quiet_local (parentsScript_quiet (fun _ hq => hq) s hs)
  unfold copyScript Script.andThen
  split
  · split
    · exact fun s hs => quiet_local (settleSteps_quiet _ s hs)
    · simp
  · split
    · intro s hs
      rcases List.mem_append.mp hs with hs | hs
      · exact hparents s hs
      · exact copyTreeScript_local s hs
    · exact hparents

theorem roleScript_local {tree d : Disk} {mounts : List Text} :
    ∀ s ∈ (roleScript lib p host tree role d mounts).steps, Local (destination p role) s := by
  intro s hs
  by_cases hopen : mounts = tmpfs ∨ mounts = []
  · rw [roleScript_open hopen] at hs
    rcases List.mem_append.mp hs with hs | hs
    · rcases List.mem_append.mp hs with hs | hs
      · exact quiet_local (opening_quiet _ mounts s hs)
      · exact copyScript_local s hs
    · rw [List.mem_singleton.mp hs]
      trivial
  · rw [roleScript, if_neg hopen] at hs
    exact quiet_local (clearSteps_quiet _ mounts s hs)

end Returned

/-! ### A run that returns -/

/-- The partition holds what was extracted at its place, and beside it only what a new file system holds
and the directories on the way. -/
def HoldsOnly (p : Boot.Policy) (tree : Disk) (role : Role) (d : Disk) : Prop :=
  Filled p tree role d ∧ ∀ path, d.find path ≠ none →
    path = [text "lost+found"] ∨ path ∈ ancestors (destination p role) ∨ destination p role <+: path

/-- A run that returns has put the archive, as it was at last, on the two partitions: what it was opened
for the second time, which is the verified backup where both readings are one. The data partition is
new. -/
theorem reformat_restores (lib : Reader) (p : Boot.Policy) (req : Request) (answers : ℕ → Answer) (world : World)
    (s : Machine) (h : reformat lib p req (Session.opened answers world) = (.ret (), s)) :
    ∃ file manifest members again tree before, s.record = before ++ [.restore file (partitions req.disk)] ∧
      (∃ n, (answers n).file = file) ∧ verifyArchive lib file = .ok manifest ∧ SameTarget manifest p ∧
      lib.getmembers .plain file.content = .ok members ∧ lib.getmembers .any file.content = .ok again ∧
      lib.unpack again = .ok tree ∧
      (∀ role ∈ restored, HoldsOnly p tree role (s.world.disk role) ∧
        (Reads members tree role → Holds p members role (s.world.disk role))) ∧
      s.world.disk .data = fresh := by
  obtain ⟨a, ⟨n, rfl⟩, w, w', hfresh, hrestore, hdisk, before, hrecord⟩ :=
    (reformat_upholds lib p req answers world).post () s h
  obtain ⟨tree, hopening, hroles, hdata⟩ := restore_returned hrestore
  obtain ⟨manifest, members, again, hmanifest, htarget, hmembers, hagain, htree⟩ := opening_verified hopening
  refine ⟨(answers n).file, manifest, members, again, tree, before, hrecord, ⟨n, rfl⟩, hmanifest, htarget, hmembers,
    hagain, htree, ?_, ?_⟩
  · intro role hrole
    obtain ⟨herror, hsteps⟩ := hroles role hrole
    rw [hfresh role] at herror hsteps
    have hfilled := fresh_filled herror
    rw [hdisk, hsteps]
    refine ⟨⟨hfilled, ?_⟩, hfilled.holds⟩
    intro path hpath
    rcases stepsOn_local roleScript_local hpath with hfind | hplace
    · left
      by_contra hne
      rw [find_fresh, if_neg hne] at hfind
      exact hfind rfl
    · exact .inr hplace
  · rw [hdisk, hdata, hfresh]

/-! ### The next boot -/

/-- The label and the partition of a format that succeeded. -/
def Event.label? : Event → Option (Text × Text)
  | .command [tool, _, _, label, path] _ (some _) => if tool = text "mkfs.ext4" then some (path, label) else none
  | _ => none

/-- The label that the last format of a partition gave it. -/
def labelled (record : List Event) (path : Text) : Option Text :=
  (record.reverse.filterMap Event.label?).lookup path

/-- A listing of the disk after these commands: the table has the three partitions and no other, each
with an ext4 file system and the label of its last format, and no other device has a label of the
policy. -/
structure Shows (p : Boot.Policy) (disk : Text) (record : List Event) (t : Boot.Inventory) : Prop where
  once : (t.nodes.map Boot.Node.name).Nodup
  listed : ∀ role, ∃ n ∈ t.nodes, n.name = partitionPath disk (index role) ∧ n.type = text "part" ∧
    n.pkname = some p.disk
  only : ∀ n ∈ t.nodes, n.pkname = some p.disk → ∃ role, n.name = partitionPath disk (index role)
  labels : ∀ n ∈ t.nodes, n.pkname = some p.disk → n.label = labelled record n.name ∧ n.fstype = some (text "ext4")
  others : ∀ n ∈ t.nodes, n.pkname ≠ some p.disk → ∀ role, n.label ≠ some (p.label role)

theorem partitionPath_injective {disk : Text} {role role' : Role}
    (h : partitionPath disk (index role) = partitionPath disk (index role')) : role = role' := by
  have hindex : text (toString (index role)) = text (toString (index role')) := List.append_cancel_left h
  cases role <;> cases role' <;> first | rfl | exact absurd hindex (by decide)

theorem label_formatted (p : Boot.Policy) (role : Role) (path out : Text) :
    (output (mkfs p role path) out).label? = some (path, p.label role) := by
  simp [output, mkfs, Event.label?]

/-- The formats of a run give each partition the label of its role. -/
theorem labelled_written {p : Boot.Policy} {disk : Text} {before written after : List Event}
    (h : Written p disk roles written) (hafter : after.filterMap Event.label? = []) (role : Role) :
    labelled (before ++ written ++ after) (partitionPath disk (index role)) = some (p.label role) := by
  obtain ⟨out, out', logs, rfl, hlogs⟩ := h
  obtain ⟨_, _, ⟨factoryOut, rfl⟩, hstate, rfl⟩ := List.forall₂_cons_left_iff.mp hlogs
  obtain ⟨_, _, ⟨stateOut, rfl⟩, hdata, rfl⟩ := List.forall₂_cons_left_iff.mp hstate
  obtain ⟨_, _, ⟨dataOut, rfl⟩, hnil, rfl⟩ := List.forall₂_cons_left_iff.mp hdata
  rw [List.forall₂_nil_left_iff.mp hnil]
  have hafter' : after.reverse.filterMap Event.label? = [] := by
    rw [List.filterMap_reverse, hafter]
    rfl
  have hne : ∀ role', role ≠ role' →
      (partitionPath disk (index role) == partitionPath disk (index role')) = false := by
    intro role' hrole
    rw [beq_eq_false_iff_ne]
    exact fun he => hrole (partitionPath_injective he)
  have hblock : ∀ path there, (Event.block path there).label? = none := fun _ _ => rfl
  unfold labelled
  simp only [List.reverse_append, List.filterMap_append, hafter', List.nil_append, List.flatten_cons,
    List.flatten_nil, List.append_nil, List.cons_append, List.reverse_cons, List.filterMap_cons,
    label_formatted, hblock, List.append_assoc]
  cases role with
  | factory => rw [List.lookup_cons, hne .data (by decide), List.lookup_cons, hne .state (by decide), List.lookup_cons_self]
  | state => rw [List.lookup_cons, hne .data (by decide), List.lookup_cons_self]
  | data => rw [List.lookup_cons_self]

/-- The next boot finds the partition of a role by its label. -/
theorem resolveRole_shown {p : Boot.Policy} (hp : Boot.Valid p) {disk : Text} {record : List Event} {t : Boot.Inventory}
    (ht : Shows p disk record t)
    (hlabels : ∀ role, labelled record (partitionPath disk (index role)) = some (p.label role)) (role : Role) :
    Boot.resolveRole p t.nodes role = .ok (some (partitionPath disk (index role))) := by
  obtain ⟨n, hn, hname, htype, hpk⟩ := ht.listed role
  obtain ⟨hlabel, hfs⟩ := ht.labels n hn hpk
  rw [hname, hlabels role] at hlabel
  have honly : ∀ m ∈ t.nodes.filter (fun m => m.label == some (p.label role)), m = n := by
    intro m hm
    obtain ⟨hm, hml⟩ := List.mem_filter.mp hm
    have hmpk : m.pkname = some p.disk := by
      by_contra hne
      exact ht.others m hm hne role (eq_of_beq hml)
    obtain ⟨role', hmname⟩ := ht.only m hm hmpk
    have hmlabel := (ht.labels m hm hmpk).1
    rw [hmname, hlabels role', eq_of_beq hml] at hmlabel
    have hsame : role = role' := hp.distinct role role' (Option.some.inj hmlabel)
    rw [← hsame] at hmname
    exact List.inj_on_of_nodup_map ht.once hm hn (hmname.trans hname.symm)
  have hnodup : (t.nodes.filter fun m => m.label == some (p.label role)).Nodup :=
    (List.Nodup.of_map _ ht.once).filter _
  have hmem : n ∈ t.nodes.filter fun m => m.label == some (p.label role) :=
    List.mem_filter.mpr ⟨hn, by rw [hlabel]; exact beq_self_eq_true _⟩
  have hsingle : t.nodes.filter (fun m => m.label == some (p.label role)) = [n] := by
    cases hl : t.nodes.filter (fun m => m.label == some (p.label role)) with
    | nil =>
      rw [hl] at hmem
      cases hmem
    | cons a rest =>
      rw [hl] at honly hnodup
      have ha := honly a (List.mem_cons_self ..)
      cases rest with
      | nil => rw [ha]
      | cons b rest =>
        have hb := honly b (by simp)
        rw [ha, hb] at hnodup
        simp at hnodup
  unfold Boot.resolveRole
  rw [hsingle]
  have hpart : (n.type == text "part" && n.pkname == some p.disk) = true := by
    rw [htype, hpk]
    simp
  have hext : (n.fstype == some (text "ext4")) = true := by
    rw [hfs]
    simp
  simp only [hpart, hext, Boot.require, refuse]
  rw [hname]
  rfl

theorem restore_licensed {lib : Reader} {p : Boot.Policy} {req : Request} {before : List Event} {file : BackupFile}
    {devices : Devices} (h : Session.Licensed (licence lib p req) (before ++ [.restore file devices])) :
    ∃ cleared written out, before = cleared ++ written ++ [output [text "sync"] out] ∧
      Cleared lib p req cleared ∧ Written p req.disk roles written :=
  (h before (.restore file devices) [] rfl).2

/-- The run was for the disk of the policy. -/
theorem Cleared.disk {lib : Reader} {p : Boot.Policy} {req : Request} {before : List Event}
    (h : Cleared lib p req before) : req.disk = p.disk := by
  obtain ⟨rootType, a, b, c, -, -, -, ⟨listing, d, idle, file, manifest, -, hguard, -, -⟩, -⟩ := h
  unfold diskGuard at hguard
  simp only [bind_ok, Boot.require_ok] at hguard
  obtain ⟨_, hdisk, -⟩ := hguard
  exact eq_of_beq hdisk

/-- After a run that returns the next boot resolves the three roles to the three new partitions. -/
theorem reformat_resolves (lib : Reader) (p : Boot.Policy) (hp : Boot.Valid p) (req : Request)
    (answers : ℕ → Answer) (world : World) (s : Machine)
    (h : reformat lib p req (Session.opened answers world) = (.ret (), s)) (t : Boot.Inventory)
    (ht : Shows p p.disk s.record t) : Boot.resolve p t = .ok (partitions p.disk) := by
  obtain ⟨a, -, w, w', -, -, -, before, hrecord⟩ := (reformat_upholds lib p req answers world).post () s h
  have hlicensed := (reformat_upholds lib p req answers world).kept.licensed
  rw [h, hrecord] at hlicensed
  obtain ⟨cleared, written, out, hbefore, hcleared, hwritten⟩ := restore_licensed hlicensed
  have hdisk := hcleared.disk
  have hlabels : ∀ role, labelled s.record (partitionPath p.disk (index role)) = some (p.label role) := by
    intro role
    rw [hrecord, hbefore, List.append_assoc, ← hdisk]
    exact labelled_written hwritten rfl role
  have hfound : (p.order.mapM fun role => do
      let device ← Boot.resolveRole p t.nodes role
      return (role, device) : Except Error (List (Role × Option Text))) =
      .ok (p.order.map fun role => (role, some (partitionPath p.disk (index role)))) := by
    apply mapM_eq_ok
    intro role _
    rw [resolveRole_shown hp ht hlabels role]
    rfl
  unfold Boot.resolve
  rw [bind_of_ok hfound]
  show Except.ok _ = Except.ok _
  congr 1
  funext role
  have hlookup : ∀ order : List Role, role ∈ order →
      (order.map fun role => (role, some (partitionPath p.disk (index role)))).lookup role =
        some (some (partitionPath p.disk (index role))) := by
    intro order hmem
    induction order with
    | nil => cases hmem
    | cons r order ih =>
      rw [List.map_cons, List.lookup_cons]
      by_cases hr : role = r
      · rw [hr, beq_self_eq_true]
      · rw [beq_false_of_ne hr]
        exact ih ((List.mem_cons.mp hmem).resolve_left hr)
  rw [hlookup p.order (hp.complete role)]
  rfl

/-! ### From the backup to the new file systems -/

section RoundTrip
open Monutchee.Storage.Writing (Archiver Station Settings Source Admissible Faithful LOCK files)

/-- The names `.lock` are left out of a backup. -/
def Kept (e : List Text × Source) : Prop := e.1.getLast? ≠ some LOCK

instance : DecidablePred Kept := fun e => inferInstanceAs (Decidable (e.1.getLast? ≠ some LOCK))

def settingsTree (settings : Settings) : Tree Text Source := ⟨settings.entries, settings.nodup⟩

def storedSource (s : Source) : Stored := if s.kind = .directory then .directory else .file s.data

/-- What a backup keeps of the settings: every object but those of the name `.lock`, which stay only
as directories above an object that is kept. -/
def keptAt (settings : Settings) (path : List Text) : Option Stored :=
  if path = [] then some .directory
  else match (settingsTree settings).find path with
    | none => none
    | some s =>
      if Kept (path, s) then some (storedSource s)
      else if ∃ e ∈ settings.entries, Kept e ∧ path ∈ ancestors e.1 then some .directory
      else none

variable {lib : Archiver} {settings : Settings} {product : Source} {target : Json} {umask : ℕ}

theorem stored_member {f : Text × Source} (h : f.2.kind = .regular ∨ f.2.kind = .directory) :
    (Writing.member f).stored = storedSource f.2 := by
  unfold Member.stored storedSource Writing.member Member.isdir Member.plain
  rcases h with h | h
  · simp [h]
  · simp [h]

theorem lookup_entries {e : List Text × Source} (he : e ∈ settings.entries) :
    (settingsTree settings).find e.1 = some e.2 := lookup_of_nodup settings.nodup he

/-- The members of a backup, as `archived` counts them. -/
theorem archived_written {ms : List Member}
    (hms : (files settings product).map Writing.member ++
      [Writing.manifestMember lib target umask (files settings product)] = ms)
    (hplain : ∀ f ∈ files settings product, f.2.kind = .regular ∨ f.2.kind = .directory) {f : Text × Source}
    (hf : f ∈ files settings product) : archived ms (slashParts f.1) = some (storedSource f.2) := by
  have hmem : Writing.member f ∈ ms := Writing.listed hms hf
  have harchived := archived_of_mem (Writing.listed_nodup hms) hmem
  rw [stored_member (hplain f hf)] at harchived
  exact harchived

theorem settings_path {e : List Text × Source} (he : e ∈ settings.entries) :
    slashParts (text "settings/" ++ [47].intercalate e.1) = text "settings" :: e.1 :=
  Writing.slashParts_entry (settings.named e he).1 (settings.named e he).2

theorem entry_listed {e : List Text × Source} (he : e ∈ settings.entries) (hkept : Kept e) :
    (text "settings/" ++ [47].intercalate e.1, e.2) ∈ files settings product :=
  List.mem_cons_of_mem _ (List.mem_cons_of_mem _ (List.mem_map.mpr
    ⟨e, List.mem_filter.mpr ⟨he, decide_eq_true hkept⟩, rfl⟩))

theorem top_paths : slashParts (text "settings") = [text "settings"] ∧ slashParts PRODUCT = [PRODUCT] ∧
    slashParts MANIFEST = [MANIFEST] := by decide

/-- A member at or below a path of the settings is a kept entry, or the directory itself. -/
theorem member_cases {ms : List Member}
    (hms : (files settings product).map Writing.member ++
      [Writing.manifestMember lib target umask (files settings product)] = ms) {m : Member} (hm : m ∈ ms) :
    m.path = [text "settings"] ∨ m.path = [PRODUCT] ∨ m.path = [MANIFEST] ∨
      ∃ e ∈ settings.entries, Kept e ∧ m.path = text "settings" :: e.1 := by
  rw [← hms] at hm
  rcases List.mem_append.mp hm with hm | hm
  · obtain ⟨f, hf, rfl⟩ := List.mem_map.mp hm
    rcases List.mem_cons.mp hf with rfl | hf
    · exact .inl top_paths.1
    · rcases List.mem_cons.mp hf with rfl | hf
      · exact .inr (.inl top_paths.2.1)
      · obtain ⟨e, he, rfl⟩ := List.mem_map.mp hf
        obtain ⟨he, hkept⟩ := List.mem_filter.mp he
        exact .inr (.inr (.inr ⟨e, he, of_decide_eq_true hkept, settings_path he⟩))
  · rw [List.mem_singleton.mp hm]
    exact .inr (.inr (.inl top_paths.2.2))

theorem archived_absent {ms : List Member} {path : List Text} (h : ∀ m ∈ ms, m.path ≠ path) :
    archived ms path = if ∃ m ∈ ms, path ∈ ancestors m.path then some .directory else none := by
  have hnone : (ms.find? fun m => m.path == path) = none := by
    rw [List.find?_eq_none]
    intro m hm he
    exact h m hm (eq_of_beq he)
  unfold archived
  rw [hnone]
  simp only [List.any_eq_true, decide_eq_true_eq]

theorem settings_names : text "settings" ≠ PRODUCT ∧ text "settings" ≠ MANIFEST := by decide

theorem ancestors_cons {a : Text} {q path : List Text} (hq : q ≠ []) :
    a :: q ∈ ancestors (a :: path) ↔ q ∈ ancestors path := by
  rw [mem_ancestors, mem_ancestors, List.cons_prefix_cons]
  simp [hq]

theorem archived_settings {ms : List Member}
    (hms : (files settings product).map Writing.member ++
      [Writing.manifestMember lib target umask (files settings product)] = ms)
    (hplain : ∀ f ∈ files settings product, f.2.kind = .regular ∨ f.2.kind = .directory) (path : List Text) :
    archived ms (text "settings" :: path) = keptAt settings path := by
  unfold keptAt
  by_cases hpath : path = []
  · have hroot := archived_written hms hplain (f := (text "settings", settings.root)) (List.mem_cons_self ..)
    rw [top_paths.1, storedSource, if_pos settings.isDirectory] at hroot
    rw [hpath, if_pos rfl]
    exact hroot
  rw [if_neg hpath]
  by_cases hentry : ∃ e ∈ settings.entries, Kept e ∧ e.1 = path
  · obtain ⟨e, he, hkept, rfl⟩ := hentry
    have harchived := archived_written hms hplain (entry_listed he hkept)
    rw [settings_path he] at harchived
    rw [harchived, lookup_entries he]
    simp only
    rw [if_pos hkept]
  have habsent : ∀ m ∈ ms, m.path ≠ text "settings" :: path := by
    intro m hm hmpath
    rcases member_cases hms hm with h | h | h | ⟨e, he, hkept, h⟩
    · rw [h] at hmpath
      exact hpath (List.cons.inj hmpath).2.symm
    · rw [h] at hmpath
      exact settings_names.1 (List.cons.inj hmpath).1.symm
    · rw [h] at hmpath
      exact settings_names.2 (List.cons.inj hmpath).1.symm
    · rw [h] at hmpath
      exact hentry ⟨e, he, hkept, (List.cons.inj hmpath).2⟩
  have hbelow : (∃ m ∈ ms, text "settings" :: path ∈ ancestors m.path) ↔
      ∃ e ∈ settings.entries, Kept e ∧ path ∈ ancestors e.1 := by
    constructor
    · intro h
      obtain ⟨m, hm, ha⟩ := h
      obtain ⟨hbegins, -, hne⟩ := mem_ancestors.mp ha
      rcases member_cases hms hm with h | h | h | ⟨e, he, hkept, h⟩
      · rw [h, List.cons_prefix_cons, List.prefix_nil] at hbegins
        exact absurd hbegins.2 hpath
      · rw [h, List.cons_prefix_cons] at hbegins
        exact absurd hbegins.1 settings_names.1
      · rw [h, List.cons_prefix_cons] at hbegins
        exact absurd hbegins.1 settings_names.2
      · rw [h] at ha
        exact ⟨e, he, hkept, (ancestors_cons hpath).mp ha⟩
    · intro h
      obtain ⟨e, he, hkept, ha⟩ := h
      refine ⟨Writing.member (text "settings/" ++ [47].intercalate e.1, e.2), Writing.listed hms (entry_listed he hkept), ?_⟩
      show text "settings" :: path ∈ ancestors (slashParts (text "settings/" ++ [47].intercalate e.1))
      rw [settings_path he]
      exact (ancestors_cons hpath).mpr ha
  rw [archived_absent habsent]
  simp only [hbelow]
  cases hlookup : (settingsTree settings).find path with
  | none =>
    have hnone : ¬ ∃ e ∈ settings.entries, Kept e ∧ path ∈ ancestors e.1 := by
      intro h
      obtain ⟨e, he, -, ha⟩ := h
      obtain ⟨d, hd, hdpath, -⟩ := settings.closed e he path ha
      rw [← hdpath, lookup_entries hd] at hlookup
      cases hlookup
    rw [if_neg hnone]
  | some s =>
    have hdropped : ¬ Kept (path, s) := by
      intro hkept
      exact hentry ⟨(path, s), mem_of_lookup hlookup, hkept, rfl⟩
    simp only [hdropped, if_false]

theorem archived_product {ms : List Member}
    (hms : (files settings product).map Writing.member ++
      [Writing.manifestMember lib target umask (files settings product)] = ms)
    (hplain : ∀ f ∈ files settings product, f.2.kind = .regular ∨ f.2.kind = .directory)
    (hproduct : product.kind = .regular) (path : List Text) :
    archived ms (PRODUCT :: path) = if path = [] then some (.file product.data) else none := by
  by_cases hpath : path = []
  · have hfile := archived_written hms hplain (f := (PRODUCT, product)) (List.mem_cons_of_mem _ (List.mem_cons_self ..))
    rw [top_paths.2.1, storedSource, if_neg (by simp [hproduct])] at hfile
    rw [hpath, if_pos rfl]
    exact hfile
  have hfirst : ∀ m ∈ ms, ¬ PRODUCT :: path <+: m.path := by
    intro m hm hbegins
    rcases member_cases hms hm with h | h | h | ⟨e, -, -, h⟩
    · rw [h, List.cons_prefix_cons] at hbegins
      exact settings_names.1 hbegins.1.symm
    · rw [h, List.cons_prefix_cons, List.prefix_nil] at hbegins
      exact hpath hbegins.2
    · rw [h, List.cons_prefix_cons] at hbegins
      exact absurd hbegins.1 (by decide)
    · rw [h, List.cons_prefix_cons] at hbegins
      exact settings_names.1 hbegins.1.symm
  rw [archived_absent fun m hm he => hfirst m hm (by rw [he]), if_neg hpath, if_neg]
  intro h
  obtain ⟨m, hm, ha⟩ := h
  exact hfirst m hm (mem_ancestors.mp ha).1

/-- A backup that returned has packed the members without a second name. -/
theorem backup_written {st : Station} {w : Writing.World} {bytes : Bytes}
    (hlib : Faithful lib st.target st.umask (files settings product)) (ha : Admissible lib st settings product)
    (h : Writing.backup lib st {} = (.ret (), w)) (hbytes : w.destination = some bytes) :
    bytes = lib.pack (Writing.members lib st.target st.umask (files settings product)) ∧
      Writing.members lib st.target st.umask (files settings product) = (files settings product).map Writing.member ++
        [Writing.manifestMember lib st.target st.umask (files settings product)] := by
  have hfits := (Writing.backup_returns_iff hlib ha {}).mp (congrArg Prod.fst h)
  rw [Writing.backup_packs ha h] at hbytes
  exact ⟨(Option.some.inj hbytes).symm, Writing.members_eq hfits.single⟩

/-- What the libraries promise beyond the backup: a file that was written as a plain archive is no
compressed one, and its members are extracted as they are read. -/
structure Reopened (lib : Archiver) (target : Json) (umask : ℕ) (files : List (Text × Source)) : Prop where
  reads : lib.reader.getmembers .any (lib.pack (Writing.members lib target umask files)) =
    .ok (Writing.members lib target umask files)
  unpacks : lib.reader.unpack (Writing.members lib target umask files) = unpackPlain (Writing.members lib target umask files)

/-- What was backed up is what the new file systems hold at the places of the settings and of the
product file. -/
theorem backup_reformat_round_trip (lib : Archiver) (st : Station) (settings : Settings) (product : Source)
    (hlib : Faithful lib st.target st.umask (files settings product))
    (hagain : Reopened lib st.target st.umask (files settings product)) (ha : Admissible lib st settings product)
    (w : Writing.World) (bytes : Bytes) (hbackup : Writing.backup lib st {} = (.ret (), w))
    (hbytes : w.destination = some bytes) (p : Boot.Policy) (req : Request) (answers : ℕ → Answer)
    (harchive : ∀ n, (answers n).file = ⟨true, bytes⟩) (world : World) (s : Machine)
    (h : reformat lib.reader p req (Session.opened answers world) = (.ret (), s)) :
    (∀ path, (s.world.disk .state).find (destination p .state ++ path) = (keptAt settings path).map .stored) ∧
      ∀ path, (s.world.disk .factory).find (destination p .factory ++ path) =
        if path = [] then some (.stored (.file product.data)) else none := by
  obtain ⟨file, manifest, members, again, tree, before, -, ⟨n, hfile⟩, hverify, -, hmembers, hsecond, htree, hholds, -⟩ :=
    reformat_restores lib.reader p req answers world s h
  obtain ⟨rfl, hms⟩ := backup_written hlib ha hbackup hbytes
  rw [← hfile, harchive n] at hmembers hsecond hverify
  rw [hlib.reads] at hmembers
  rw [hagain.reads] at hsecond
  cases hmembers
  cases hsecond
  have hreads : ∀ role, Reads (Writing.members lib st.target st.umask (files settings product)) tree role := by
    obtain ⟨members, hread, hv⟩ := verifyArchive_ok hverify
    rw [hlib.reads] at hread
    cases hread
    obtain ⟨tree', htree', hreads⟩ := unpackPlain_reads hv
    rw [hagain.unpacks, htree'] at htree
    cases htree
    exact hreads
  constructor
  · intro path
    rw [(hholds .state (by simp [restored])).2 (hreads .state) path]
    exact congrArg (Option.map Entry.stored) (archived_settings hms.symm ha.plain path)
  · intro path
    rw [(hholds .factory (by simp [restored])).2 (hreads .factory) path]
    have hproduct := archived_product hms.symm ha.plain ha.isFile path
    show (archived _ (PRODUCT :: path)).map Entry.stored = _
    rw [hproduct]
    split
    · rfl
    · rfl

end RoundTrip

/-! ### A run on a card of one gigabyte -/

namespace Sample

def label (role : Role) : Text := text "mnc-" ++ Boot.roleName role

def policy : Boot.Policy :=
  { Restore.Sample.policy with role := fun role => ⟨label role, 0, decide (role = .factory)⟩ }

theorem valid : Boot.Valid policy := by
  refine ⟨?_, fun _ => rfl, ?_⟩
  · intro r r' h
    cases r <;> cases r' <;> first | rfl | exact absurd h (by decide)
  · intro r
    cases r with
    | factory => simp [policy, Restore.Sample.policy]
    | state => simp [policy, Restore.Sample.policy]
    | data => simp [policy, Restore.Sample.policy]

def request : Request where
  disk := text "/dev/sda"
  archive := text "/tmp/backup.tar"
  confirmation := text "ERASE:/dev/sda"
  units := [text "mnc-system.service"]

/-- The fourth command of the run asks for the state of the unit. -/
def answer (file : BackupFile) (n : ℕ) : Answer where
  crash := false
  fails := false
  stdout := if n = 9 then text "inactive" else text "tmpfs"
  yes := true
  listing := ⟨Restore.Sample.listing, fun _ => some 1000000000⟩
  file := file
  names := some []
  code := 1
  garbage := fun _ => Tree.empty
  selinux := false
  copier := Restore.Sample.copier
  power := none

def world : World := ⟨fun _ => Tree.empty, fun _ => [text "tmpfs"]⟩

def card : Boot.Node :=
  .node (text "/dev/sda") (text "disk") none none none [none] []

def node (role : Role) : Boot.Node :=
  .node (Restore.Sample.device role) (text "part") (some (label role)) (some (text "ext4")) (some (text "/dev/sda")) [none] []

/-- The card as the next boot sees it. -/
def listing : Boot.Inventory where
  disks := [card, node .factory, node .state, node .data]
  named := by decide

theorem mem_listing {n : Boot.Node} (hn : n ∈ listing.nodes) : n = card ∨ ∃ role, n = node role := by
  have hnodes : listing.nodes = [card, node .factory, node .state, node .data] := rfl
  rw [hnodes] at hn
  simp only [List.mem_cons, List.not_mem_nil, or_false] at hn
  rcases hn with h | h | h | h
  · exact .inl h
  · exact .inr ⟨_, h⟩
  · exact .inr ⟨_, h⟩
  · exact .inr ⟨_, h⟩

theorem listed (role : Role) : node role ∈ listing.nodes := by
  cases role <;> simp [Boot.Inventory.nodes, listing, Boot.Node.descendantsAll, Boot.Node.descendants, node]

/-- A run with these libraries. -/
def result (lib : Reader) : Outcome Error Unit × Machine :=
  reformat lib policy request (Session.opened (answer Restore.Sample.file) world)

theorem returned : ∃ s, reformat Restore.Sample.reader policy request
    (Session.opened (answer Restore.Sample.file) world) = (.ret (), s) ∧
    ∀ role, some (label role) = labelled s.record (Restore.Sample.device role) := by
  have hresult : (result Restore.Sample.reader).1 = .ret () ∧
      ∀ role ∈ roles, some (label role) = labelled (result Restore.Sample.reader).2.record (Restore.Sample.device role) := by
    decide +kernel
  exact ⟨(result Restore.Sample.reader).2, Act.run_eq hresult.1, fun role => hresult.2 role (mem_roles role)⟩

theorem shown {record : List Event}
    (hlabels : ∀ role, some (label role) = labelled record (Restore.Sample.device role)) :
    Shows policy (text "/dev/sda") record listing := by
  have hcard : card.pkname ≠ some (text "/dev/sda") := by decide
  refine ⟨by decide, ?_, ?_, ?_, ?_⟩
  · intro role
    refine ⟨node role, listed role, ?_, rfl, rfl⟩
    cases role <;> decide
  · intro n hn hpk
    rcases mem_listing hn with rfl | ⟨role, rfl⟩
    · exact absurd hpk hcard
    · refine ⟨role, ?_⟩
      cases role <;> decide
  · intro n hn hpk
    rcases mem_listing hn with rfl | ⟨role, rfl⟩
    · exact absurd hpk hcard
    · exact ⟨hlabels role, rfl⟩
  · intro n hn hpk role
    rcases mem_listing hn with rfl | ⟨role', rfl⟩
    · cases role <;> decide
    · exact absurd rfl hpk

/-- The libraries of one backup. -/
def archiver : Writing.Archiver := Writing.Sample.libraries Writing.Sample.singleJson Writing.Sample.single

theorem archiver_members : Writing.members archiver (Writing.Sample.station Writing.Sample.single).target 0o022
    (Writing.files Writing.Sample.single Writing.Sample.productFile) = Restore.Sample.members := rfl

/-- The backup is the file of the sample. -/
theorem archiver_file : Restore.Sample.file = ⟨true, archiver.pack (Writing.members archiver
    (Writing.Sample.station Writing.Sample.single).target 0o022
    (Writing.files Writing.Sample.single Writing.Sample.productFile))⟩ := by
  rw [archiver_members]
  rfl

theorem archiver_reader : archiver.reader = Restore.Sample.reader := by
  have hmanifest : Writing.manifest (Writing.Sample.archiver Writing.Sample.singleJson [] [])
      (Writing.Sample.station Writing.Sample.single).target
      (Writing.files Writing.Sample.single Writing.Sample.productFile) = Restore.Sample.manifest := rfl
  unfold archiver Writing.Sample.libraries
  rw [hmanifest]
  rfl

theorem archiver_returned : ∃ s, reformat archiver.reader policy request
    (Session.opened (answer Restore.Sample.file) world) = (.ret (), s) := by
  rw [archiver_reader]
  obtain ⟨s, hs, -⟩ := returned
  exact ⟨s, hs⟩

theorem archiver_wrote : ∃ w, Writing.backup archiver (Writing.Sample.station Writing.Sample.single) {} = (.ret (), w) :=
  ⟨_, Act.run_eq ((Writing.backup_returns_iff Writing.single_faithful Writing.single_admissible {}).mpr
    Writing.single_fits)⟩

end Sample

/-- The product file is on the new factory partition. -/
theorem reformat_restores_sample : ∃ s : Machine,
    HoldsOnly Sample.policy Restore.Sample.tree .factory (s.world.disk .factory) ∧
      Holds Sample.policy Restore.Sample.members .factory (s.world.disk .factory) ∧ s.world.disk .data = fresh := by
  obtain ⟨s, hs, -⟩ := Sample.returned
  obtain ⟨file, manifest, members, again, tree, before, -, -, -, -, hmembers, hagain, htree, hholds, hdata⟩ :=
    reformat_restores Restore.Sample.reader Sample.policy Sample.request (Sample.answer Restore.Sample.file)
      Sample.world s hs
  cases hmembers
  cases hagain
  rw [Restore.Sample.unpacked.1] at htree
  cases htree
  obtain ⟨honly, hreads⟩ := hholds .factory (by simp [restored])
  exact ⟨s, honly, hreads (Restore.Sample.unpacked.2 .factory), hdata⟩

theorem reformat_resolves_sample :
    Boot.resolve Sample.policy Sample.listing = .ok (partitions (text "/dev/sda")) := by
  obtain ⟨s, hs, hlabels⟩ := Sample.returned
  exact reformat_resolves Restore.Sample.reader Sample.policy Sample.valid Sample.request
    (Sample.answer Restore.Sample.file) Sample.world s hs Sample.listing (Sample.shown hlabels)

/-- The document of the settings is on the new state partition. -/
theorem backup_reformat_round_trip_sample : ∃ s : Machine,
    (s.world.disk .state).find (destination Sample.policy .state ++ [text "active.json"]) =
      some (.stored (.file Restore.Sample.active)) := by
  obtain ⟨s, hs⟩ := Sample.archiver_returned
  obtain ⟨w, hw⟩ := Sample.archiver_wrote
  exact ⟨s, (backup_reformat_round_trip Sample.archiver (Writing.Sample.station Writing.Sample.single)
    Writing.Sample.single Writing.Sample.productFile Writing.single_faithful ⟨rfl, rfl⟩ Writing.single_admissible w _ hw
    (Writing.backup_packs Writing.single_admissible hw) Sample.policy Sample.request (Sample.answer Restore.Sample.file)
    (fun _ => Sample.archiver_file) Sample.world s hs).1 [text "active.json"]⟩

end Monutchee.Storage.Reformat
