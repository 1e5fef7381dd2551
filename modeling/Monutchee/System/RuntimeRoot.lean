import Monutchee.System.Erasure
import Monutchee.Storage.Policy

/-!
# The runtime root in three programs (storage.cpp:117-121, mnc-storage:72-73, make-ram-root.py:61-63)

The daemon takes the path apart with `std::filesystem`, the two Python programs match a pattern. A
decoded string is a string of Unicode characters in Python and its UTF-8 bytes in C++.
-/

namespace Monutchee.System.RuntimeRoot
open Monutchee.Lib (Text text)
open Monutchee.Storage.Boot (runtimeRootPattern matched after wordCharacter letter)
open Validation

def utf8 (r : String) : Bytes := r.toList.flatMap String.utf8EncodeChar

/-- The check of `loadProfile`. -/
def profileAccepts (r : String) : Bool := (checkRuntimeRoot { runtimeRoot := utf8 r }).isOk

/-- The check of `validate` in mnc-storage. -/
def storageAccepts (r : String) : Bool :=
  (matched runtimeRootPattern (text "invalid runtime root") (.str (text r))).isOk

/-- The check of `build` in make-ram-root. -/
def checkPolicyRoot (runtime : Text) : Except Text Unit :=
  if runtimeRootPattern runtime then .ok () else .error (text "invalid runtime root in storage policy")

def ramRootAccepts (r : String) : Bool := (checkPolicyRoot (text r)).isOk

/-! ### The parts of a path -/

theorem splitPath_plain {acc s : Bytes} (h : 47 ∉ s) : splitPath acc s = [acc ++ s] := by
  induction s generalizing acc with
  | nil => simp [splitPath]
  | cons c s ih =>
    have hc : c ≠ 47 := fun hc => h (hc ▸ List.mem_cons_self ..)
    rw [splitPath, if_neg hc, ih fun hs => h (List.mem_cons_of_mem c hs)]
    simp

/-- Before the first separator and behind it. -/
theorem splitPath_first {s : Bytes} (h : 47 ∈ s) :
    ∃ first rest, s = first ++ 47 :: rest ∧ splitPath [] s = first :: splitPath [] rest := by
  obtain ⟨first, rest, rfl, hfirst⟩ := List.eq_append_cons_of_mem h
  refine ⟨first, rest, rfl, ?_⟩
  rw [splitPath_append, splitPath_plain hfirst]
  rfl

/-- Before the last separator and behind it. -/
theorem splitPath_last {s : Bytes} (h : 47 ∈ s) :
    ∃ front last, s = front ++ 47 :: last ∧ 47 ∉ last ∧ splitPath [] s = splitPath [] front ++ [last] := by
  obtain ⟨back, rest, hsplit, hback⟩ := List.eq_append_cons_of_mem (List.mem_reverse.mpr h)
  have hs : s = rest.reverse ++ 47 :: back.reverse := by
    rw [← List.reverse_reverse s, hsplit]
    simp
  have hlast : 47 ∉ back.reverse := by
    rw [List.mem_reverse]
    exact hback
  refine ⟨rest.reverse, back.reverse, hs, hlast, ?_⟩
  rw [hs, splitPath_append, splitPath_plain hlast]
  rfl

theorem names_none {s : Bytes} (h : (splitPath [] s).filter (· ≠ []) = []) : ∃ k, s = List.replicate k 47 := by
  induction hn : s.length using Nat.strong_induction_on generalizing s with
  | _ n ih =>
    by_cases hs : 47 ∈ s
    · obtain ⟨first, rest, rfl, hsplit⟩ := splitPath_first hs
      rw [hsplit] at h
      have hfirst : first = [] := by
        by_contra hne
        rw [List.filter_cons_of_pos (by simpa using hne)] at h
        cases h
      rw [hfirst, List.filter_cons_of_neg (by simp)] at h
      have hshort : rest.length < n := by
        rw [← hn, List.length_append, List.length_cons]
        omega
      obtain ⟨k, hk⟩ := ih rest.length hshort h rfl
      exact ⟨k + 1, by rw [hfirst, hk]; rfl⟩
    · rw [splitPath_plain hs] at h
      refine ⟨0, ?_⟩
      by_contra hne
      rw [List.nil_append, List.filter_cons_of_pos (by simpa using hne)] at h
      cases h

/-- A path with one name has separators around it. -/
theorem names_one {s name : Bytes} (h : (splitPath [] s).filter (· ≠ []) = [name]) :
    ∃ i j, s = List.replicate i 47 ++ name ++ List.replicate j 47 := by
  induction hn : s.length using Nat.strong_induction_on generalizing s with
  | _ n ih =>
    by_cases hs : 47 ∈ s
    · obtain ⟨first, rest, rfl, hsplit⟩ := splitPath_first hs
      rw [hsplit] at h
      by_cases hfirst : first = []
      · rw [hfirst, List.filter_cons_of_neg (by simp)] at h
        have hshort : rest.length < n := by
          rw [← hn, List.length_append, List.length_cons]
          omega
        obtain ⟨i, j, hrest⟩ := ih rest.length hshort h rfl
        exact ⟨i + 1, j, by rw [hfirst, hrest]; rfl⟩
      · rw [List.filter_cons_of_pos (by simpa using hfirst)] at h
        obtain ⟨hname, hothers⟩ := List.cons_eq_cons.mp h
        obtain ⟨k, hk⟩ := names_none hothers
        exact ⟨0, k + 1, by rw [hname, hk]; rfl⟩
    · rw [splitPath_plain hs, List.nil_append] at h
      have hmem : name ∈ [s].filter (· ≠ []) := by
        rw [h]
        exact List.mem_singleton_self name
      have hname := List.mem_singleton.mp (List.mem_of_mem_filter hmem)
      exact ⟨0, 0, by rw [hname]; simp⟩

theorem splitPath_separators (k : ℕ) (s : Bytes) :
    splitPath [] (List.replicate k 47 ++ s) = List.replicate k [] ++ splitPath [] s := by
  induction k with
  | zero => rfl
  | succ k ih =>
    rw [List.replicate_succ, List.cons_append, splitPath, if_pos rfl, ih]
    rfl

/-! ### What the daemon accepts -/

def wordByte (c : UInt8) : Bool := isAlnum c || c == 95 || c == 45

/-- Separators, `run`, separators and one name of the allowed characters. -/
structure Spelled (m n : ℕ) (name r : Bytes) : Prop where
  shape : r = List.replicate (m + 1) 47 ++ ascii "run" ++ List.replicate (n + 1) 47 ++ name
  nonempty : name ≠ []
  word : ∀ c ∈ name, wordByte c = true

theorem runtimeByte_eq (c : UInt8) : runtimeByte c = (wordByte c || c == 47) := by
  unfold runtimeByte wordByte
  cases isAlnum c <;> cases c == 47 <;> cases c == 95 <;> cases c == 45 <;> rfl

theorem wordByte_separator {name : Bytes} (h : ∀ c ∈ name, wordByte c = true) : 47 ∉ name := by
  intro hc
  have hbad := h 47 hc
  revert hbad
  decide

section
variable {m n : ℕ} {name r : Bytes} (h : Spelled m n name r)
include h

theorem Spelled.split : splitPath [] r = List.replicate (m + 1) [] ++ [ascii "run"] ++ List.replicate n [] ++ [name] := by
  have hrun : splitPath [] (ascii "run") = [ascii "run"] := by decide
  have hname : splitPath [] name = [[] ++ name] := splitPath_plain (wordByte_separator h.word)
  have hshape : r = List.replicate (m + 1) 47 ++ (ascii "run" ++ 47 :: (List.replicate n 47 ++ name)) := by
    rw [h.shape, List.replicate_succ (n := n)]
    simp
  rw [hshape, splitPath_separators, splitPath_append, hrun, splitPath_separators, hname]
  simp

theorem Spelled.parent : parentNames r = [ascii "run"] := by
  have hrun : ascii "run" ≠ [] := by decide
  unfold parentNames
  rw [h.split, List.dropLast_concat]
  simp [List.filter_append, hrun]

theorem Spelled.file : filename r = name := by
  unfold filename
  rw [h.split, List.getLastD_concat]

theorem Spelled.absolute : isAbsolute r = true := by
  rw [h.shape]
  rfl

theorem Spelled.bytes : r.all runtimeByte = true := by
  have hrun : (ascii "run").all runtimeByte = true := by decide
  have hseparators : ∀ k, (List.replicate k (47 : UInt8)).all runtimeByte = true := by
    intro k
    rw [List.all_eq_true]
    intro c hc
    rw [List.eq_of_mem_replicate hc]
    decide
  have hname : name.all runtimeByte = true := by
    rw [List.all_eq_true]
    intro c hc
    rw [runtimeByte_eq, h.word c hc]
    rfl
  rw [h.shape]
  simp only [List.all_append, hseparators, hrun, hname, Bool.and_self]

theorem Spelled.not_dot : name ≠ ascii "." ∧ name ≠ ascii ".." := by
  have hdot : 46 ∉ name := by
    intro hc
    have hbad := h.word 46 hc
    revert hbad
    decide
  constructor
  · rintro rfl
    revert hdot
    decide
  · rintro rfl
    revert hdot
    decide
end

theorem checkRuntimeRoot_iff {p : Product} :
    checkRuntimeRoot p = .ok () ↔ ∃ m n name, Spelled m n name p.runtimeRoot := by
  unfold checkRuntimeRoot
  rw [check_ok]
  simp only [Bool.and_eq_true, beq_iff_eq, bne_iff_ne]
  constructor
  · rintro ⟨⟨⟨⟨⟨habsolute, hparent⟩, hname⟩, -⟩, -⟩, hall⟩
    generalize p.runtimeRoot = r at *
    cases r with
    | nil => cases habsolute
    | cons c rest =>
      have hc : c = 47 := by
        unfold isAbsolute at habsolute
        simpa using habsolute
      have hmem : (47 : UInt8) ∈ c :: rest := hc ▸ List.mem_cons_self ..
      obtain ⟨front, last, hshape, hlast, hsplit⟩ := splitPath_last hmem
      have hfile : filename (c :: rest) = last := by
        unfold filename
        rw [hsplit]
        simp
      have hfront : (splitPath [] front).filter (· ≠ []) = [ascii "run"] := by
        rw [← hparent, parentNames, hsplit, List.dropLast_concat]
      obtain ⟨i, j, rfl⟩ := names_one hfront
      rw [hfile] at hname
      cases i with
      | zero =>
        have hrun : ascii "run" = 114 :: [117, 110] := by decide
        rw [hrun] at hshape
        have hhead := (List.cons_eq_cons.mp hshape).1
        rw [hc] at hhead
        exact absurd hhead (by decide)
      | succ m =>
        refine ⟨m, j, last, ?_, hname, ?_⟩
        · rw [hshape, List.replicate_succ' (n := j)]
          simp
        · intro b hb
          have hbyte : runtimeByte b = true := by
            apply List.all_eq_true.mp hall b
            rw [hshape]
            exact List.mem_append_right _ (List.mem_cons_of_mem _ hb)
          rw [runtimeByte_eq, Bool.or_eq_true, beq_iff_eq] at hbyte
          cases hbyte with
          | inl hword => exact hword
          | inr hslash => exact absurd (hslash ▸ hb) hlast
  · rintro ⟨m, n, name, h⟩
    rw [h.file]
    exact ⟨⟨⟨⟨⟨h.absolute, h.parent⟩, h.nonempty⟩, h.not_dot.1⟩, h.not_dot.2⟩, h.bytes⟩

/-! ### Characters and bytes -/

theorem encode_low {c : Char} (h : c.toNat < 128) : String.utf8EncodeChar c = [UInt8.ofNat c.toNat] := by
  unfold String.utf8EncodeChar
  exact if_pos (by show c.toNat ≤ 127; omega)

/-- The first byte of any other character is above the range. -/
theorem encode_high {c : Char} (h : 128 ≤ c.toNat) : ∃ b ∈ String.utf8EncodeChar c, 128 ≤ b.toNat := by
  have hlarge : ∀ x y, y < 256 → 128 ≤ y → x = UInt8.ofNat y → 128 ≤ x.toNat := by
    rintro x y hy hle rfl
    rw [UInt8.toNat_ofNat_of_lt' hy]
    exact hle
  unfold String.utf8EncodeChar
  change 128 ≤ c.val.toNat at h
  dsimp only
  rw [if_neg (by omega)]
  split
  · exact ⟨_, List.mem_cons_self .., hlarge _ _ (by omega) (by omega) rfl⟩
  split
  · exact ⟨_, List.mem_cons_self .., hlarge _ _ (by omega) (by omega) rfl⟩
  · exact ⟨_, List.mem_cons_self .., hlarge _ _ (by omega) (by omega) rfl⟩

theorem utf8_low {r : String} (h : ∀ c ∈ text r, c < 128) : utf8 r = (text r).map UInt8.ofNat := by
  have hchars : ∀ cs : List Char, (∀ c ∈ cs, c.toNat < 128) →
      cs.flatMap String.utf8EncodeChar = (cs.map Char.toNat).map UInt8.ofNat := by
    intro cs hcs
    induction cs with
    | nil => rfl
    | cons c cs ih =>
      rw [List.flatMap_cons, encode_low (hcs c (List.mem_cons_self ..)), ih fun d hd => hcs d (List.mem_cons_of_mem c hd)]
      rfl
  exact hchars r.toList fun c hc => h c.toNat (List.mem_map_of_mem hc)

theorem text_low {r : String} (h : ∀ b ∈ utf8 r, b.toNat < 128) : ∀ c ∈ text r, c < 128 := by
  intro c hc
  obtain ⟨d, hd, rfl⟩ := List.mem_map.mp hc
  by_contra hlarge
  obtain ⟨b, hb, hle⟩ := encode_high (c := d) (by omega)
  have hsmall := h b (List.mem_flatMap.mpr ⟨d, hd, hb⟩)
  omega

theorem text_of_low {r : String} (h : ∀ b ∈ utf8 r, b.toNat < 128) : text r = (utf8 r).map UInt8.toNat := by
  rw [utf8_low (text_low h), List.map_map]
  have hback : ∀ c ∈ text r, (UInt8.toNat ∘ UInt8.ofNat) c = c := by
    intro c hc
    have hlow := text_low h c hc
    exact UInt8.toNat_ofNat_of_lt' (by show c < 256; omega)
  rw [List.map_congr_left hback, List.map_id']

theorem wordByte_toNat (c : UInt8) : wordByte c = wordCharacter c.toNat := by
  have h45 : (45 : UInt8).toNat = 45 := rfl
  have h48 : (48 : UInt8).toNat = 48 := rfl
  have h57 : (57 : UInt8).toNat = 57 := rfl
  have h65 : (65 : UInt8).toNat = 65 := rfl
  have h90 : (90 : UInt8).toNat = 90 := rfl
  have h95 : (95 : UInt8).toNat = 95 := rfl
  have h97 : (97 : UInt8).toNat = 97 := rfl
  have h122 : (122 : UInt8).toNat = 122 := rfl
  rw [Bool.eq_iff_iff]
  simp only [wordByte, isAlnum, isDigit, isLower, isUpper, wordCharacter, letter, Storage.Boot.lower, Storage.Boot.digit,
    Bool.or_eq_true, Bool.and_eq_true, decide_eq_true_eq, beq_iff_eq, UInt8.le_iff_toNat_le, ← UInt8.toNat_inj,
    h45, h48, h57, h65, h90, h95, h97, h122]
  tauto

/-! ### The three checks -/

/-- The spelling of a runtime root in characters. -/
structure Written (m n : ℕ) (name r : Text) : Prop where
  shape : r = List.replicate (m + 1) 47 ++ text "run" ++ List.replicate (n + 1) 47 ++ name
  nonempty : name ≠ []
  word : ∀ c ∈ name, wordCharacter c = true

theorem wordCharacter_low {c : ℕ} (h : wordCharacter c = true) : c < 128 := by
  simp only [wordCharacter, letter, Storage.Boot.lower, Storage.Boot.digit, Bool.or_eq_true, Bool.and_eq_true,
    decide_eq_true_eq, beq_iff_eq] at h
  omega

theorem written_low {m n : ℕ} {name r : Text} (h : Written m n name r) : ∀ c ∈ r, c < 128 := by
  have hrun : ∀ c ∈ text "run", c < 128 := by decide
  intro c hc
  rw [h.shape, List.mem_append, List.mem_append, List.mem_append] at hc
  rcases hc with ((hc | hc) | hc) | hc
  · rw [List.eq_of_mem_replicate hc]
    decide
  · exact hrun c hc
  · rw [List.eq_of_mem_replicate hc]
    decide
  · exact wordCharacter_low (h.word c hc)

theorem Spelled.low {m n : ℕ} {name r : Bytes} (h : Spelled m n name r) : ∀ b ∈ r, b.toNat < 128 := by
  intro b hb
  have hbyte := List.all_eq_true.mp h.bytes b hb
  rw [runtimeByte_eq, Bool.or_eq_true, beq_iff_eq] at hbyte
  cases hbyte with
  | inl hword => exact wordCharacter_low (wordByte_toNat b ▸ hword)
  | inr hslash =>
    rw [hslash]
    decide

theorem profileAccepts_iff (r : String) : profileAccepts r = true ↔ ∃ m n name, Written m n name (text r) := by
  have hok : profileAccepts r = true ↔ checkRuntimeRoot { runtimeRoot := utf8 r } = .ok () := by
    unfold profileAccepts
    cases checkRuntimeRoot { runtimeRoot := utf8 r } with
    | ok u => exact ⟨fun _ => rfl, fun _ => rfl⟩
    | error e => exact ⟨fun h => (by cases h), fun h => (by cases h)⟩
  rw [hok, checkRuntimeRoot_iff]
  constructor
  · rintro ⟨m, n, name, h⟩
    change Spelled m n name (utf8 r) at h
    have hrun : (ascii "run").map UInt8.toNat = text "run" := by decide
    refine ⟨m, n, name.map UInt8.toNat, ?_, ?_, ?_⟩
    · rw [text_of_low h.low, h.shape]
      simp only [List.map_append, List.map_replicate, hrun]
      rfl
    · intro hnil
      exact h.nonempty (List.map_eq_nil_iff.mp hnil)
    · intro c hc
      obtain ⟨b, hb, rfl⟩ := List.mem_map.mp hc
      rw [← wordByte_toNat]
      exact h.word b hb
  · rintro ⟨m, n, name, h⟩
    have hrun : (text "run").map UInt8.ofNat = ascii "run" := by decide
    refine ⟨m, n, name.map UInt8.ofNat, ?_, ?_, ?_⟩
    · show utf8 r = _
      rw [utf8_low (written_low h), h.shape]
      simp only [List.map_append, List.map_replicate, hrun]
      rfl
    · intro hnil
      exact h.nonempty (List.map_eq_nil_iff.mp hnil)
    · intro b hb
      obtain ⟨c, hc, rfl⟩ := List.mem_map.mp hb
      have hlow : c < 128 := by
        apply written_low h
        rw [h.shape]
        exact List.mem_append_right _ hc
      rw [wordByte_toNat, UInt8.toNat_ofNat_of_lt' (by show c < 256; omega)]
      exact h.word c hc

/-- A name that begins with a letter. -/
def Lettered (name : Text) : Prop := ∃ c, name.head? = some c ∧ letter c = true

theorem runtimeRootPattern_iff (s : Text) : runtimeRootPattern s = true ↔ ∃ name, Written 0 0 name s ∧ Lettered name := by
  have hopen : text "/run/" = List.replicate 1 47 ++ text "run" ++ List.replicate 1 47 := by decide
  unfold runtimeRootPattern after
  constructor
  · intro h
    split at h
    · rename_i c rest hafter
      split at hafter
      · rename_i hbegins
        obtain ⟨name, rfl⟩ := List.isPrefixOf_iff_prefix.mp hbegins
        rw [List.drop_left, Option.some.injEq] at hafter
        rw [Bool.and_eq_true, List.all_eq_true] at h
        refine ⟨c :: rest, ⟨?_, List.cons_ne_nil c rest, ?_⟩, c, rfl, h.1⟩
        · rw [hafter, hopen]
        · intro d hd
          cases List.mem_cons.mp hd with
          | inl hhead => simp [hhead, wordCharacter, h.1]
          | inr htail => exact h.2 d htail
      · cases hafter
    · cases h
  · rintro ⟨name, h, c, hhead, hletter⟩
    cases name with
    | nil => cases hhead
    | cons d rest =>
      cases hhead
      rw [h.shape, ← hopen, if_pos (List.isPrefixOf_iff_prefix.mpr (List.prefix_append _ _)), List.drop_left]
      show (letter c && rest.all wordCharacter) = true
      rw [hletter, Bool.true_and, List.all_eq_true]
      intro d hd
      exact h.word d (List.mem_cons_of_mem c hd)

theorem storageAccepts_eq (r : String) : storageAccepts r = runtimeRootPattern (text r) := by
  have hrun : storageAccepts r = (Storage.Boot.require (runtimeRootPattern (text r)) (text "invalid runtime root") >>=
      fun _ => pure (text r) : Except Storage.Boot.Error Text).isOk := rfl
  rw [hrun]
  cases runtimeRootPattern (text r) with
  | true => rfl
  | false => rfl

theorem ramRootAccepts_eq (r : String) : ramRootAccepts r = runtimeRootPattern (text r) := by
  unfold ramRootAccepts checkPolicyRoot
  cases runtimeRootPattern (text r) with
  | true => rfl
  | false => rfl

/-! ### Where they agree -/

/-- Where the text is spelled as a root, its separators are single and its name begins with a letter. -/
def Plain (r : String) : Prop := ∀ m n name, Written m n name (text r) → m = 0 ∧ n = 0 ∧ Lettered name

/-- A spelling that the pattern accepts is the only one. -/
theorem Written.plain {m n : ℕ} {name name' r : Text} (h : Written m n name r) (h' : Written 0 0 name' r)
    (hletter : Lettered name') : m = 0 ∧ n = 0 ∧ name = name' := by
  have hrun : text "run" = [114, 117, 110] := by decide
  have hsame := h.shape.symm.trans h'.shape
  rw [hrun] at hsame
  cases m with
  | succ m => simp [List.replicate_succ] at hsame
  | zero =>
    cases n with
    | zero => exact ⟨rfl, rfl, List.append_cancel_left hsame⟩
    | succ n =>
      have hname : name' = 47 :: (List.replicate n 47 ++ name) := by
        simp only [List.replicate_succ, List.replicate_zero, Nat.zero_add, List.cons_append, List.nil_append,
          List.cons.injEq, true_and] at hsame
        exact hsame.symm
      obtain ⟨c, hc, hletter⟩ := hletter
      rw [hname] at hc
      cases hc
      exact absurd hletter (by decide)

/-- The three programs agree on a string exactly if it is not spelled as a root at all, or only with single separators
and a name that begins with a letter. -/
theorem runtime_roots_agree_iff (r : String) :
    (profileAccepts r = storageAccepts r ∧ storageAccepts r = ramRootAccepts r) ↔ Plain r := by
  rw [ramRootAccepts_eq, storageAccepts_eq]
  constructor
  · rintro ⟨hsame, -⟩ m n name h
    have hprofile := (profileAccepts_iff r).mpr ⟨m, n, name, h⟩
    rw [hsame, runtimeRootPattern_iff] at hprofile
    obtain ⟨name', h', hletter⟩ := hprofile
    obtain ⟨hm, hn, hname⟩ := h.plain h' hletter
    exact ⟨hm, hn, hname ▸ hletter⟩
  · intro hplain
    refine ⟨?_, rfl⟩
    rw [Bool.eq_iff_iff, profileAccepts_iff, runtimeRootPattern_iff]
    constructor
    · rintro ⟨m, n, name, h⟩
      obtain ⟨rfl, rfl, hletter⟩ := hplain m n name h
      exact ⟨name, h, hletter⟩
    · rintro ⟨name, h, -⟩
      exact ⟨0, 0, name, h⟩

/-- A digit, or a second separator. -/
theorem runtime_roots_disagree :
    (profileAccepts "/run/0" = true ∧ storageAccepts "/run/0" = false ∧ ramRootAccepts "/run/0" = false) ∧
      profileAccepts "/run//mnc" = true ∧ storageAccepts "/run//mnc" = false ∧ ramRootAccepts "/run//mnc" = false := by
  decide

end Monutchee.System.RuntimeRoot
