import Monutchee.System.Wellformed

/-!
# What a factory reset erases (storage.cpp:109-137, 264-279)

`loadProfile` refuses the reset paths that would take the system or the journal with them,
and the reset branch of `bootstrap` removes the others one after another. A path takes away
whatever lies at or below the names it resolves to, whether or not a separator ends it. The
loader compares the path with its final separator still on, so a spelling such as `/etc/`
passes; the condition below lists the spellings that do.
-/

namespace Monutchee.System
open Lib Lib.Act Validation

/-! ### Names of a path -/

theorem splitPath_append (name a b : Bytes) :
    splitPath name (a ++ 47 :: b) = splitPath name a ++ splitPath [] b := by
  induction a generalizing name with
  | nil => simp [splitPath]
  | cons c cs ih =>
    by_cases hc : c = 47
    · simp [splitPath, hc, ih]
    · simp [splitPath, hc, ih]

theorem resolve_append (absolute : Bool) (done xs ys : List Bytes) :
    resolve absolute done (xs ++ ys) = resolve absolute (resolve absolute done xs) ys := by
  induction xs generalizing done with
  | nil => rfl
  | cons x xs ih =>
    simp only [List.cons_append, resolve]
    split
    · exact ih done
    · split
      · split
        · exact ih _
        · exact ih _
      · exact ih _

theorem components_journal (directory : Bytes) :
    components (directory ++ ascii "/state.json") = components directory ++ [ascii "state.json"] := by
  have htext : ascii "/state.json" = 47 :: ascii "state.json" := by decide
  have hname : splitPath [] (ascii "state.json") = [ascii "state.json"] := by decide
  have hnew : ∀ done, resolve true done [ascii "state.json"] = done ++ [ascii "state.json"] := by
    intro done
    have h₁ : ascii "state.json" ≠ [] := by decide
    have h₂ : ascii "state.json" ≠ ascii "." := by decide
    have h₃ : ascii "state.json" ≠ ascii ".." := by decide
    simp [resolve, h₁, h₂, h₃]
  unfold components
  rw [htext, splitPath_append, hname, resolve_append, hnew]

theorem names_absolute {path : Bytes} (h : isAbsolute path = true) :
    (lexicallyNormal path).names = components path := by
  unfold lexicallyNormal components
  rw [h]

/-! ### Texts of normal paths -/

theorem intersperse_flatten_append {a b : List Bytes} (ha : a ≠ []) (hb : b ≠ []) :
    ((a ++ b).intersperse [47]).flatten =
      (a.intersperse [47]).flatten ++ 47 :: (b.intersperse [47]).flatten := by
  induction a with
  | nil => exact absurd rfl ha
  | cons x xs ih =>
    cases xs with
    | nil =>
      cases b with
      | nil => exact absurd rfl hb
      | cons y ys => simp
    | cons y ys =>
      have := ih (by simp)
      simp only [List.cons_append, List.intersperse_cons_cons, List.flatten_cons] at this ⊢
      simp [this]

/-- A path without a final separator is a proper directory of another in the loader's sense,
that of their texts, when its names come first among the other's. -/
theorem text_prefix {target state : NormalPath} (ht : target.absolute = true)
    (hs : state.absolute = true) (hn : target.names ≠ []) (hsep : target.trailing = false)
    (h : target.names <+: state.names) :
    target = state ∨ (target.text ++ [47]).isPrefixOf state.text = true := by
  obtain ⟨rest, hrest⟩ := h
  rw [List.isPrefixOf_iff_prefix]
  have htext : target.text = [47] ++ (target.names.intersperse [47]).flatten := by
    simp [NormalPath.text, ht, hsep]
  have hstate : state.text =
      [47] ++ (state.names.intersperse [47]).flatten ++ if state.trailing then [47] else [] := by
    simp [NormalPath.text, hs]
  cases rest with
  | nil =>
    have hnames : target.names = state.names := by simpa using hrest
    by_cases htr : state.trailing = true
    · right
      rw [htext, hstate, hnames, if_pos htr]
    · left
      cases target
      cases state
      simp_all
  | cons name rest =>
    right
    rw [htext, hstate, ← hrest, intersperse_flatten_append hn (by simp)]
    simp

/-! ### Removal -/

/-- What the removal of a list of paths takes away. -/
def Deletes (paths : List Bytes) (q : Bytes) : Prop := ∃ path ∈ paths, inside path q = true

instance (paths : List Bytes) (q : Bytes) : Decidable (Deletes paths q) :=
  inferInstanceAs (Decidable (∃ path ∈ paths, inside path q = true))

theorem remove_journal {S : Site} {path : Bytes} (h : inside path S.journalPath = false)
    (w : World) : (World.remove S w path).journal = w.journal := by
  simp [World.remove, h]

/-- Also a removal that fails, or is cut off, leaves the journal, if the path does not hold it. -/
theorem durableRemove_journal {S : Site} {path : Bytes} (h : inside path S.journalPath = false)
    (w : World) : (durableRemove S path w).2.journal = w.journal := by
  have hgone : ∀ (gone : List Bytes) (u : World),
      ((gone.filter (inside path)).foldl (World.remove S) u).journal = u.journal := by
    intro gone
    induction gone with
    | nil => exact fun _ => rfl
    | cons q gone ih =>
      intro u
      by_cases hq : inside path q = true
      · have hout : inside q S.journalPath = false := by
          by_contra hin
          have := inside_trans hq (by simpa using hin)
          rw [h] at this
          simp at this
        rw [List.filter_cons_of_pos hq, List.foldl_cons, ih, remove_journal hout]
      · rw [List.filter_cons_of_neg hq, ih]
  have hdraw : w.draw.2.journal = w.journal := congrArg (·.journal) (draw_core w)
  rw [durableRemove, effect_apply]
  split
  · exact hdraw
  · rw [authority_journal]
    split
    · rw [hgone, hdraw]
    · rw [remove_journal h, hdraw]

def KeepsJournal (w w' : World) : Prop := w'.journal = w.journal

theorem removals_journal {S : Site} {paths : List Bytes} (h : ¬ Deletes paths S.journalPath)
    (w : World) : (each (durableRemove S) paths w).2.journal = w.journal := by
  have hstep : ∀ path ∈ paths, inside path S.journalPath = false := by
    intro path hp
    by_contra hin
    exact h ⟨path, hp, by simpa using hin⟩
  have hrefl : ∀ a, KeepsJournal a a := fun _ => rfl
  have htrans : ∀ a b c, KeepsJournal a b → KeepsJournal b c → KeepsJournal a c :=
    fun _ _ _ hab hbc => hbc.trans hab
  have hremove : ∀ (done : List Bytes) (path : Bytes) (u : World), path ∈ paths → True →
      Ensures KeepsJournal (durableRemove S path) u fun _ _ => True := fun _ path u hp _ =>
    ⟨durableRemove_journal (hstep path hp) u, fun _ _ _ => trivial⟩
  have hloop := Ensures.each_mem (w := w) hrefl htrans (fun _ _ => True) hremove [] trivial
  exact hloop.within

/-! ### The reset paths of an accepted profile -/

/-- The directories that loadProfile names. -/
def systemDirectories : List Bytes :=
  [ascii "/", ascii "/etc", ascii "/var", ascii "/data", ascii "/usr", ascii "/root"]

/-- What the removal of all reset paths must leave, and that the journal is there throughout
the loop of `bootstrap`, also when a removal fails or the process is cut off in it. -/
structure Spares (p : Product) : Prop where
  system : ∀ q ∈ systemDirectories, ¬ Deletes p.resetPaths q
  state : ∀ a, inside a p.stateDirectory = true → ¬ Deletes p.resetPaths a
  journal : ¬ Deletes p.resetPaths (p.stateDirectory ++ ascii "/state.json")
  intent : ∀ (S : Site) (w : World), S.profile = p.profile →
    (each (durableRemove S) S.profile.resetPaths w).2.journal = w.journal

/-- The spellings that get past the loader: a final separator on a protected directory, on the
state directory or on a directory above it; the journal file itself; and any directory above a
state directory that the profile gives as a relative path. -/
def Slips (directory path : Bytes) : Prop :=
  let target := lexicallyNormal path
  (target.trailing = true ∧
      (target.names ∈ protectedNames ∨ target.names <+: components directory)) ∨
    target.names = components directory ++ [ascii "state.json"] ∨
    (isAbsolute directory = false ∧ target.names <+: components directory)

theorem loadProfile_safe {file : Except Error (PolicyFile Product)} {p : Product}
    (h : loadProfile file = .ok p) {path : Bytes} (hp : path ∈ p.resetPaths) :
    safeResetPath (lexicallyNormal p.stateDirectory) path = true := by
  unfold loadProfile at h
  obtain ⟨f, -, h⟩ := bind_ok.mp h
  obtain ⟨q, -, h⟩ := bind_ok.mp h
  obtain ⟨-, h⟩ := then_ok.mp h
  obtain ⟨-, h⟩ := then_ok.mp h
  obtain ⟨-, h⟩ := then_ok.mp h
  obtain ⟨-, h⟩ := then_ok.mp h
  obtain ⟨hsafe, h⟩ := then_ok.mp h
  have hq : q = p := Except.ok.inj h
  rw [hq, check_ok, List.all_eq_true] at hsafe
  exact hsafe path hp

structure SafePath (directory path : Bytes) : Prop where
  absolute : isAbsolute path = true
  system : (lexicallyNormal path).names ∈ protectedNames → (lexicallyNormal path).trailing = true
  other : lexicallyNormal path ≠ lexicallyNormal directory
  above : ((lexicallyNormal path).text ++ [47]).isPrefixOf (lexicallyNormal directory).text = false

theorem safeResetPath_iff {directory path : Bytes} :
    safeResetPath (lexicallyNormal directory) path = true ↔ SafePath directory path := by
  simp only [safeResetPath, Bool.and_eq_true, Bool.not_eq_true', Bool.and_eq_false_iff,
    bne_iff_ne, ne_eq]
  constructor
  · rintro ⟨⟨⟨ha, hs⟩, ho⟩, hb⟩
    refine ⟨ha, ?_, ho, hb⟩
    intro hn
    rcases hs with hs | hs
    · rw [List.contains_iff_mem.mpr hn] at hs
      simp at hs
    · simpa using hs
  · intro h
    refine ⟨⟨⟨h.absolute, ?_⟩, h.other⟩, h.above⟩
    by_cases hn : protectedNames.contains (lexicallyNormal path).names = true
    · right
      simpa using h.system (List.contains_iff_mem.mp hn)
    · left
      simpa using hn

theorem protected_components : systemDirectories.map components = protectedNames := by
  decide

/-- Each protected directory has at most one name, so what holds it is protected itself. -/
theorem protected_below {names : List Bytes} {q : Bytes} (hq : q ∈ systemDirectories)
    (h : names <+: components q) : names ∈ protectedNames := by
  have hmem : components q ∈ protectedNames := by
    rw [← protected_components]
    exact List.mem_map_of_mem hq
  have hshort : (components q).length ≤ 1 := by
    have : ∀ ns ∈ protectedNames, ns.length ≤ 1 := by decide
    exact this _ hmem
  cases names with
  | nil => decide
  | cons name rest =>
    have hlen := h.length_le
    have heq : name :: rest = components q := by
      apply h.eq_of_length
      simp only [List.length_cons] at hlen ⊢
      omega
    rw [heq]
    exact hmem

theorem slips_of_deletes {p : Product} {path q : Bytes}
    (hsafe : SafePath p.stateDirectory path) (hq : inside path q = true)
    (hs : q ∈ systemDirectories ∨ q = p.stateDirectory ++ ascii "/state.json" ∨
      inside q p.stateDirectory = true) : Slips p.stateDirectory path := by
  have hnames := names_absolute hsafe.absolute
  have hbelow : components path <+: components q := List.isPrefixOf_iff_prefix.mp hq
  rcases hs with hs | hs
  · have hp := protected_below hs hbelow
    rw [← hnames] at hp
    exact .inl ⟨hsafe.system hp, .inl hp⟩
  · -- what remains holds the state directory, or is the journal itself
    have hcases : components path <+: components p.stateDirectory ∨
        components path = components p.stateDirectory ++ [ascii "state.json"] := by
      rcases hs with rfl | hs
      · rw [components_journal, List.prefix_concat_iff] at hbelow
        exact hbelow.symm
      · exact .inl (hbelow.trans (List.isPrefixOf_iff_prefix.mp hs))
    rcases hcases with hstate | hjournal
    · by_cases ha : isAbsolute p.stateDirectory = true
      · left
        refine ⟨?_, .inr (by rw [hnames]; exact hstate)⟩
        by_contra htr
        have htrail : (lexicallyNormal path).trailing = false := by simpa using htr
        have hn : (lexicallyNormal path).names ≠ [] := by
          intro hn
          have := hsafe.system (by rw [hn]; decide)
          exact htr this
        rw [← hnames, ← names_absolute ha] at hstate
        rcases text_prefix hsafe.absolute ha hn htrail hstate with he | hb
        · exact hsafe.other he
        · rw [hsafe.above] at hb
          simp at hb
      · right
        right
        exact ⟨by simpa using ha, by rw [hnames]; exact hstate⟩
    · right
      left
      rw [hnames]
      exact hjournal

/-- The reset of an accepted profile spares the system directories, the state directory with
the directories above it, and the journal, exactly when no reset path has one of the spellings
that the loader lets through. -/
theorem reset_spares (file : Except Error (PolicyFile Product)) (p : Product)
    (h : loadProfile file = .ok p) :
    Spares p ↔ ∀ path ∈ p.resetPaths, ¬ Slips p.stateDirectory path := by
  have hsafe : ∀ path ∈ p.resetPaths, SafePath p.stateDirectory path := fun path hp =>
    safeResetPath_iff.mp (loadProfile_safe h hp)
  constructor
  · intro hs path hp hslip
    have hnames := names_absolute (hsafe path hp).absolute
    have habove : components path <+: components p.stateDirectory → False := by
      intro hin
      exact hs.state _ (inside_refl _) ⟨path, hp, List.isPrefixOf_iff_prefix.mpr hin⟩
    rw [Slips, hnames] at hslip
    rcases hslip with ⟨-, hprot | hin⟩ | hj | ⟨-, hin⟩
    · rw [← protected_components] at hprot
      obtain ⟨q, hq, he⟩ := List.mem_map.mp hprot
      refine hs.system q hq ⟨path, hp, ?_⟩
      rw [inside, he, List.isPrefixOf_iff_prefix]
    · exact habove hin
    · refine hs.journal ⟨path, hp, ?_⟩
      rw [inside, components_journal, hj, List.isPrefixOf_iff_prefix]
    · exact habove hin
  · intro hn
    have hkeep : ∀ q, (q ∈ systemDirectories ∨ q = p.stateDirectory ++ ascii "/state.json" ∨
        inside q p.stateDirectory = true) → ¬ Deletes p.resetPaths q := by
      rintro q hq ⟨path, hp, hin⟩
      exact hn path hp (slips_of_deletes (hsafe path hp) hin hq)
    have hjournal := hkeep (p.stateDirectory ++ ascii "/state.json") (.inr (.inl rfl))
    refine ⟨fun q hq => hkeep q (.inl hq), fun a ha => hkeep a (.inr (.inr ha)), hjournal, ?_⟩
    intro S w hS
    have hout : ¬ Deletes S.profile.resetPaths S.journalPath := by
      rw [Site.journalPath, hS]
      exact hjournal
    exact removals_journal hout w

namespace Fixture

/-- The loader on the product of the tests with other reset paths. -/
def shippedFile (resetPaths : List Bytes) : Except Error (PolicyFile Product) :=
  .ok { content := .ok (shipped resetPaths) }

end Fixture

open Fixture

theorem reset_spares_product : loadProfile (shippedFile [ascii "/test/product"]) =
      .ok (shipped [ascii "/test/product"]) ∧ Spares (shipped [ascii "/test/product"]) := by
  have hload : loadProfile (shippedFile [ascii "/test/product"]) =
      .ok (shipped [ascii "/test/product"]) := by decide
  refine ⟨hload, (reset_spares _ _ hload).mpr ?_⟩
  intro path hp
  have hpath : path = ascii "/test/product" := by simpa [shipped] using hp
  subst hpath
  simp only [Slips]
  decide

/-- The loader accepts /etc/, the state directory with a separator, and the journal file; their
removal takes away /etc, the state directory and the journal. -/
theorem reset_wipes_system :
    let paths := [ascii "/etc/", ascii "/test/private/", ascii "/test/private/state.json"]
    loadProfile (shippedFile paths) = .ok (shipped paths) ∧
    Deletes [ascii "/etc/"] (ascii "/etc") ∧
    Deletes [ascii "/test/private/"] (shipped paths).stateDirectory ∧
    Deletes [ascii "/test/private/state.json"] ((shipped paths).stateDirectory ++ ascii "/state.json") ∧
    ¬ Spares (shipped paths) := by
  refine ⟨by decide, by decide, by decide, by decide, ?_⟩
  intro hs
  exact hs.system (ascii "/etc") (by decide) ⟨ascii "/etc/", List.mem_cons_self .., by decide⟩

end Monutchee.System
