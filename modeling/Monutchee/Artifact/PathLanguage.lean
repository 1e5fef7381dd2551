import Monutchee.Artifact.Schema

/-!
# The two path languages (mnc-artifact.py:44-59, mnc-station-artifact-v2.schema.json:97-101)

Both are read through the places of a text at which something forbidden begins. The validator
refuses such a place wherever it stands. The pattern looks for it with `.*`, which does not
cross a line separator, and it has nothing against a slash at the end.
-/

namespace Monutchee.Artifact
open Monutchee.Lib

/-! ### Forbidden places -/

/-- The line terminators that are not control characters. -/
def lineSeparator (c : ℕ) : Bool := c == 0x2028 || c == 0x2029

/-- A part ends: at the end of the text or at a slash. -/
def PartEnds (s : Text) (k : ℕ) : Prop := s.length ≤ k ∨ s[k]? = some slash

/-- From the place on stands `.` or `..` up to the end of the part. -/
def Dots (s : Text) (k : ℕ) : Prop :=
  s[k]? = some 46 ∧ (PartEnds s (k + 1) ∨ s[k + 1]? = some 46 ∧ PartEnds s (k + 2))

/-- A colon, a backslash, two slashes, or a part of dots at the beginning or behind a slash. -/
def Offends (s : Text) (k : ℕ) : Prop :=
  s[k]? = some 58 ∨ s[k]? = some 92 ∨ s[k]? = some slash ∧ s[k + 1]? = some slash ∨
    k = 0 ∧ Dots s 0 ∨ s[k]? = some slash ∧ Dots s (k + 1)

/-- A line separator stands before the place. -/
def Hidden (s : Text) (k : ℕ) : Prop := ∃ c ∈ s.take k, lineSeparator c = true

/-- What both languages refuse: an empty text, a control character, a slash at the beginning,
and a forbidden place on the first line. -/
def Shown (s : Text) : Prop :=
  s = [] ∨ (∃ c ∈ s, control c = true) ∨ s.head? = some slash ∨ ∃ k, Offends s k ∧ ¬ Hidden s k

/-- Nothing forbidden behind a line separator, and no slash at the end. -/
def Clean (s : Text) : Prop := (∀ k, Offends s k → ¬ Hidden s k) ∧ s.getLast? ≠ some slash

variable {s : Text} {k : ℕ}

theorem Offends.lt (h : Offends s k) : k < s.length := by
  have hsome : ∀ c, s[k]? = some c → k < s.length := fun c hc => (List.getElem?_eq_some_iff.mp hc).1
  rcases h with h | h | h | ⟨rfl, h⟩ | h
  · exact hsome _ h
  · exact hsome _ h
  · exact hsome _ h.1
  · exact hsome _ h.1
  · exact hsome _ h.1

/-! ### The pattern -/

theorem literal_matches_iff {c i j : ℕ} : (literal c).Matches s i j ↔ j = i + 1 ∧ s[i]? = some c := by
  constructor
  · exact matches_literal
  · rintro ⟨rfl, h⟩
    exact ⟨rfl, c, h, beq_self_eq_true c⟩

/-- A lookahead sees what is not hidden. -/
theorem nowhere_iff (hp : ∀ c ∈ s, control c = false) {r : Regex ℕ} {i j : ℕ} :
    (nowhere r).Matches s i j ∧ i = 0 ↔
      (i = 0 ∧ j = 0) ∧ ∀ k ≤ s.length, (∃ n, r.Matches s k n) → Hidden s k := by
  have hline : ∀ k ≤ s.length, (Regex.star anyCharacter).Matches s 0 k ↔ ¬ Hidden s k := by
    intro k hk
    unfold anyCharacter Hidden
    rw [Regex.matches_star_char_iff]
    constructor
    · rintro ⟨-, h⟩ ⟨c, hc, hsep⟩
      obtain ⟨n, hn, rfl⟩ := List.mem_take_iff_getElem.mp hc
      obtain ⟨d, hd, hany⟩ := h n (Nat.zero_le n) (by omega)
      rw [List.getElem?_eq_getElem (by omega)] at hd
      cases hd
      simp only [lineSeparator, Bool.or_eq_true, beq_iff_eq] at hsep
      simp only [Bool.and_eq_true, decide_eq_true_eq] at hany
      omega
    · intro h
      refine ⟨Nat.zero_le k, ?_⟩
      intro n _ hn
      have hlt : n < s.length := by omega
      refine ⟨s[n], List.getElem?_eq_getElem hlt, ?_⟩
      have hcontrol := hp s[n] (List.getElem_mem hlt)
      have hsep : lineSeparator s[n] = false := by
        rw [← Bool.not_eq_true]
        exact fun hsep => h ⟨s[n], List.mem_take_iff_getElem.mpr ⟨n, by omega, rfl⟩, hsep⟩
      simp only [lineSeparator, Bool.or_eq_false_iff, beq_eq_false_iff_ne] at hsep
      simp only [control, Bool.or_eq_false_iff, decide_eq_false_iff_not, beq_eq_false_iff_ne] at hcontrol
      simp only [Bool.and_eq_true, decide_eq_true_eq]
      omega
  constructor
  · rintro ⟨⟨rfl, h⟩, rfl⟩
    refine ⟨⟨rfl, rfl⟩, ?_⟩
    rintro k hk ⟨n, hr⟩
    by_contra hhidden
    exact h n ⟨k, (hline k hk).mpr hhidden, hr⟩
  · rintro ⟨⟨rfl, rfl⟩, h⟩
    refine ⟨⟨rfl, ?_⟩, rfl⟩
    rintro n ⟨k, hstar, hr⟩
    have hk : k ≤ s.length := by
      by_contra hlong
      obtain ⟨c, hc, -⟩ := (Regex.matches_star_char_iff.mp hstar).2 s.length (Nat.zero_le _) (by omega)
      rw [List.getElem?_eq_none (Nat.le_refl _)] at hc
      cases hc
    exact (hline k hk).mp hstar (h k hk ⟨n, hr⟩)

theorem partEnds_matches {i : ℕ} (hi : i ≤ s.length) :
    (∃ j, (Regex.alt (literal slash) .finish).Matches s i j) ↔ PartEnds s i := by
  constructor
  · rintro ⟨j, h | ⟨-, h⟩⟩
    · exact .inr (literal_matches_iff.mp h).2
    · exact .inl (by omega)
  · rintro (h | h)
    · exact ⟨i, .inr ⟨rfl, by omega⟩⟩
    · exact ⟨i + 1, .inl (literal_matches_iff.mpr ⟨rfl, h⟩)⟩

/-- The dots of the pattern, behind its alternative for the beginning of a part. -/
theorem dots_matches {i : ℕ} :
    (∃ j, (Regex.seq (.seq (literal 46) (.optional (literal 46))) (.alt (literal slash) .finish)).Matches s i j) ↔
      Dots s i := by
  constructor
  · rintro ⟨j, k, ⟨n, hdot, hmore⟩, hend⟩
    obtain ⟨rfl, hfirst⟩ := literal_matches_iff.mp hdot
    refine ⟨hfirst, ?_⟩
    rcases hmore with hmore | hmore
    · obtain ⟨rfl, hsecond⟩ := literal_matches_iff.mp hmore
      have hlt := (List.getElem?_eq_some_iff.mp hsecond).1
      exact .inr ⟨hsecond, (partEnds_matches (by omega)).mp ⟨j, hend⟩⟩
    · obtain rfl : i + 1 = k := hmore
      have hlt := (List.getElem?_eq_some_iff.mp hfirst).1
      exact .inl ((partEnds_matches (by omega)).mp ⟨j, hend⟩)
  · rintro ⟨hfirst, hends | ⟨hsecond, hends⟩⟩
    · have hlt := (List.getElem?_eq_some_iff.mp hfirst).1
      obtain ⟨j, hj⟩ := (partEnds_matches (by omega)).mpr hends
      exact ⟨j, i + 1, ⟨i + 1, literal_matches_iff.mpr ⟨rfl, hfirst⟩, .inr rfl⟩, hj⟩
    · have hlt := (List.getElem?_eq_some_iff.mp hsecond).1
      obtain ⟨j, hj⟩ := (partEnds_matches (by omega)).mpr hends
      exact ⟨j, i + 2, ⟨i + 1, literal_matches_iff.mpr ⟨rfl, hfirst⟩,
        .inl (literal_matches_iff.mpr ⟨rfl, hsecond⟩)⟩, hj⟩

theorem dotSegment_matches {i : ℕ} :
    (∃ j, dotSegment.Matches s i j) ↔ i = 0 ∧ Dots s 0 ∨ s[i]? = some slash ∧ Dots s (i + 1) := by
  constructor
  · rintro ⟨j, k, ⟨rfl, rfl⟩ | hslash, hdots⟩
    · exact .inl ⟨rfl, dots_matches.mp ⟨j, hdots⟩⟩
    · obtain ⟨rfl, hat⟩ := literal_matches_iff.mp hslash
      exact .inr ⟨hat, dots_matches.mp ⟨j, hdots⟩⟩
  · rintro (⟨rfl, hdots⟩ | ⟨hslash, hdots⟩)
    · obtain ⟨j, hj⟩ := dots_matches.mpr hdots
      exact ⟨j, 0, .inl ⟨rfl, rfl⟩, hj⟩
    · obtain ⟨j, hj⟩ := dots_matches.mpr hdots
      exact ⟨j, i + 1, .inr (literal_matches_iff.mpr ⟨rfl, hslash⟩), hj⟩

/-- The four searches of the pattern, taken together. -/
theorem offends_iff : Offends s k ↔ (∃ n, (literal 58).Matches s k n) ∨ (∃ n, (literal 92).Matches s k n) ∨
    (∃ n, dotSegment.Matches s k n) ∨ ∃ n, (Regex.seq (literal slash) (literal slash)).Matches s k n := by
  have hliteral : ∀ c, (∃ n, (literal c).Matches s k n) ↔ s[k]? = some c := by
    intro c
    constructor
    · rintro ⟨n, h⟩
      exact (literal_matches_iff.mp h).2
    · intro h
      exact ⟨k + 1, literal_matches_iff.mpr ⟨rfl, h⟩⟩
  have hdouble : (∃ n, (Regex.seq (literal slash) (literal slash)).Matches s k n) ↔
      s[k]? = some slash ∧ s[k + 1]? = some slash := by
    constructor
    · rintro ⟨n, m, h1, h2⟩
      obtain ⟨rfl, hfirst⟩ := literal_matches_iff.mp h1
      exact ⟨hfirst, (literal_matches_iff.mp h2).2⟩
    · rintro ⟨h1, h2⟩
      exact ⟨k + 2, k + 1, literal_matches_iff.mpr ⟨rfl, h1⟩, literal_matches_iff.mpr ⟨rfl, h2⟩⟩
  rw [hliteral, hliteral, dotSegment_matches, hdouble]
  unfold Offends
  constructor
  · rintro (h | h | h | h | h)
    · exact .inl h
    · exact .inr (.inl h)
    · exact .inr (.inr (.inr h))
    · exact .inr (.inr (.inl (.inl h)))
    · exact .inr (.inr (.inl (.inr h)))
  · rintro (h | h | (h | h) | h)
    · exact .inl h
    · exact .inr (.inl h)
    · exact .inr (.inr (.inr (.inl h)))
    · exact .inr (.inr (.inr (.inr h)))
    · exact .inr (.inr (.inl h))

/-- The pattern admits what is not shown to be forbidden. -/
theorem relativePathPattern_iff : relativePathPattern.test s ↔ ¬ Shown s := by
  have hslash : (∀ n, ¬ (literal slash).Matches s 0 n) ↔ s.head? ≠ some slash := by
    rw [List.head?_eq_getElem?]
    constructor
    · intro h h0
      exact h 1 (literal_matches_iff.mpr ⟨rfl, h0⟩)
    · intro h n hn
      exact h (literal_matches_iff.mp hn).2
  constructor
  · rintro ⟨i, j, _, ⟨rfl, rfl⟩, _, ⟨rfl, hhead⟩, i₁, h₁, i₂, h₂, i₃, h₃, i₄, h₄, i₅, hplus, rfl, rfl⟩
    obtain rfl : _ = i₁ := h₁.1
    obtain rfl : _ = i₂ := h₂.1
    obtain rfl : _ = i₃ := h₃.1
    obtain rfl : _ = i₄ := h₄.1
    obtain ⟨m, ⟨rfl, c, hc, hprint⟩, hstar⟩ := hplus
    have hrun := (Regex.matches_star_char_iff.mp hstar).2
    have hprintable : ∀ c ∈ s, control c = false := by
      intro d hd
      obtain ⟨n, hn, rfl⟩ := List.getElem_of_mem hd
      by_cases h0 : n = 0
      · subst h0
        rw [List.getElem?_eq_getElem hn] at hc
        cases hc
        simpa using hprint
      · obtain ⟨d, hd, hdp⟩ := hrun n (by omega) hn
        rw [List.getElem?_eq_getElem hn] at hd
        cases hd
        simpa using hdp
    have hsees := fun {r} h => ((@nowhere_iff s hprintable r 0 0).mp ⟨h, rfl⟩).2
    rintro (rfl | ⟨d, hd, hcontrol⟩ | hs | ⟨k, hoffends, hseen⟩)
    · cases hc
    · rw [hprintable d hd] at hcontrol
      cases hcontrol
    · exact hslash.mp hhead hs
    · have hk := hoffends.lt
      apply hseen
      rcases offends_iff.mp hoffends with h | h | h | h
      · exact hsees h₁ k (by omega) h
      · exact hsees h₂ k (by omega) h
      · exact hsees h₃ k (by omega) h
      · exact hsees h₄ k (by omega) h
  · intro h
    simp only [Shown, not_or, not_exists, not_and, not_not, Bool.not_eq_true] at h
    obtain ⟨hne, hprint, hhead, hhidden⟩ := h
    have hsees : ∀ r : Regex ℕ, (∀ k, (∃ n, r.Matches s k n) → Offends s k) → (nowhere r).Matches s 0 0 := by
      intro r hr
      exact (nowhere_iff hprint).mpr ⟨⟨rfl, rfl⟩, fun k _ hk => hhidden k (hr k hk)⟩ |>.1
    have hall : ∀ c ∈ s, (!control c) = true := by
      intro c hc
      rw [hprint c hc]
      rfl
    exact ⟨0, _, 0, ⟨rfl, rfl⟩, 0, ⟨rfl, hslash.mpr hhead⟩,
      0, hsees _ fun k hk => offends_iff.mpr (.inl hk),
      0, hsees _ fun k hk => offends_iff.mpr (.inr (.inl hk)),
      0, hsees _ fun k hk => offends_iff.mpr (.inr (.inr (.inl hk))),
      0, hsees _ fun k hk => offends_iff.mpr (.inr (.inr (.inr hk))),
      _, Regex.matches_plus_char hall hne, rfl, rfl⟩

/-! ### The validator -/

/-- A part stands between two slashes or the ends of the text. -/
theorem mem_splitOn_segment {x : ℕ} {d : Text} (h : d ∈ s.splitOn x) :
    ∃ i v, s.drop i = d ++ v ∧ (i = 0 ∨ ∃ k, i = k + 1 ∧ s[k]? = some x) ∧ (v = [] ∨ ∃ v', v = x :: v') := by
  induction hn : s.length using Nat.strong_induction_on generalizing s with
  | _ n ih =>
    by_cases hx : x ∈ s
    · obtain ⟨first, rest, rfl, hfirst⟩ := List.eq_append_cons_of_mem hx
      rw [List.splitOn_append_cons_self_of_not_mem hfirst] at h
      rcases List.mem_cons.mp h with rfl | h
      · exact ⟨0, x :: rest, rfl, .inl rfl, .inr ⟨rest, rfl⟩⟩
      · rw [List.length_append, List.length_cons] at hn
        obtain ⟨i, v, hdrop, hi, hv⟩ := ih rest.length (by omega) h rfl
        have hskip : (first ++ x :: rest).drop (first.length + 1 + i) = rest.drop i := by
          rw [Nat.add_assoc, List.drop_length_add_append, Nat.add_comm 1 i, List.drop_succ_cons]
        refine ⟨first.length + 1 + i, v, hskip.trans hdrop, .inr ?_, hv⟩
        rcases hi with rfl | ⟨k, rfl, hk⟩
        · exact ⟨first.length, rfl, by simp⟩
        · refine ⟨first.length + 1 + k, by omega, ?_⟩
          rw [List.getElem?_append_right (by omega), show first.length + 1 + k - first.length = k + 1 by omega]
          exact hk
    · rw [List.splitOn_eq_singleton hx, List.mem_singleton] at h
      exact ⟨0, [], by simp [h], .inl rfl, .inl rfl⟩

/-- The validator accepts a text without a forbidden place. -/
theorem safePath_iff : SafePath s ↔ s ≠ [] ∧ (∀ c ∈ s, control c = false) ∧ s.head? ≠ some slash ∧
    s.getLast? ≠ some slash ∧ ∀ k, ¬ Offends s k := by
  have hends : ∀ {k}, PartEnds s k → s.drop k = [] ∨ ∃ v', s.drop k = slash :: v' := by
    rintro k (h | h)
    · exact .inl (List.drop_eq_nil_iff.mpr h)
    · exact .inr ⟨_, drop_of_getElem? h⟩
  have hdots : ∀ {k}, Dots s k → (k = 0 ∨ ∃ m, k = m + 1 ∧ s[m]? = some slash) →
      text "." ∈ s.splitOn slash ∨ text ".." ∈ s.splitOn slash := by
    rintro k ⟨hfirst, hend | ⟨hsecond, hend⟩⟩ hk
    · have hdrop : s.drop k = text "." ++ s.drop (k + 1) := drop_of_getElem? hfirst
      exact .inl (segment_mem_splitOn hdrop (by decide) hk (hends hend))
    · have hdrop : s.drop k = text ".." ++ s.drop (k + 2) := by
        rw [drop_of_getElem? hfirst, drop_of_getElem? hsecond]
        rfl
      exact .inr (segment_mem_splitOn hdrop (by decide) hk (hends hend))
  constructor
  · intro h
    have hno : ∀ {k}, Dots s k → ¬ (k = 0 ∨ ∃ m, k = m + 1 ∧ s[m]? = some slash) := by
      intro k hd hk
      rcases hdots hd hk with hp | hp
      · exact (h.parts _ hp).2.1 rfl
      · exact (h.parts _ hp).2.2 rfl
    refine ⟨h.nonempty, h.printable, fun hs => (h.parts [] (head_splitOn hs)).1 rfl, ?_, ?_⟩
    · intro hlast
      rw [List.getLast?_eq_getElem?] at hlast
      have hlt := (List.getElem?_eq_some_iff.mp hlast).1
      have hpart := @segment_mem_splitOn slash s.length s [] [] (by simp) (by simp)
        (.inr ⟨s.length - 1, by omega, hlast⟩) (.inl rfl)
      exact (h.parts [] hpart).1 rfl
    · rintro k (hc | hc | ⟨h1, h2⟩ | ⟨rfl, hd⟩ | ⟨hslash, hd⟩)
      · exact h.noColon (List.mem_of_getElem? hc)
      · exact h.noBackslash (List.mem_of_getElem? hc)
      · have hpart := @segment_mem_splitOn slash (k + 1) s [] _ rfl (by simp) (.inr ⟨k, rfl, h1⟩)
          (.inr ⟨_, drop_of_getElem? h2⟩)
        exact (h.parts [] hpart).1 rfl
      · exact hno hd (.inl rfl)
      · exact hno hd (.inr ⟨k, rfl, hslash⟩)
  · rintro ⟨hne, hprint, hhead, hlast, hoff⟩
    have hmem : ∀ c : ℕ, (∀ k : ℕ, s[k]? ≠ some c) → c ∉ s := by
      intro c hc hm
      obtain ⟨k, hk, rfl⟩ := List.getElem_of_mem hm
      exact hc k (List.getElem?_eq_getElem hk)
    refine ⟨hne, hmem 92 fun k hk => hoff k (.inr (.inl hk)), hmem 58 fun k hk => hoff k (.inl hk), hprint, ?_⟩
    intro part hp
    obtain ⟨i, v, hdrop, hi, hv⟩ := mem_splitOn_segment hp
    have hat : ∀ {n} {c : ℕ} {rest : Text}, s.drop n = c :: rest → s[n]? = some c ∧ s.drop (n + 1) = rest := by
      intro n c rest hn
      have hhead := congrArg List.head? hn
      rw [List.head?_drop] at hhead
      have htail := congrArg List.tail hn
      rw [List.tail_drop] at htail
      exact ⟨hhead, htail⟩
    have hpartEnds : ∀ {n}, s.drop n = v → PartEnds s n := by
      intro n hn
      rcases hv with rfl | ⟨v', rfl⟩
      · exact .inl (List.drop_eq_nil_iff.mp hn)
      · exact .inr (hat hn).1
    have hdot : ¬ Dots s i := by
      intro hd
      rcases hi with rfl | ⟨k, rfl, hk⟩
      · exact hoff 0 (.inr (.inr (.inr (.inl ⟨rfl, hd⟩))))
      · exact hoff k (.inr (.inr (.inr (.inr ⟨hk, hd⟩))))
    refine ⟨?_, ?_, ?_⟩
    · rintro rfl
      rcases hi with rfl | ⟨k, rfl, hk⟩
      · rcases hpartEnds hdrop with h | h
        · exact hne (List.length_eq_zero_iff.mp (Nat.le_zero.mp h))
        · rw [← List.head?_eq_getElem?] at h
          exact hhead h
      · rcases hpartEnds hdrop with h | h
        · have hlt := (List.getElem?_eq_some_iff.mp hk).1
          rw [List.getLast?_eq_getElem?, show s.length - 1 = k by omega] at hlast
          exact hlast hk
        · exact hoff k (.inr (.inr (.inl ⟨hk, h⟩)))
    · rintro rfl
      obtain ⟨hfirst, hrest⟩ := hat hdrop
      exact hdot ⟨hfirst, .inl (hpartEnds hrest)⟩
    · rintro rfl
      obtain ⟨hfirst, hmore⟩ := hat hdrop
      obtain ⟨hsecond, hrest⟩ := hat hmore
      exact hdot ⟨hfirst, .inr ⟨hsecond, hpartEnds hrest⟩⟩

/-- What both refuse is not accepted. -/
theorem SafePath.not_shown (h : SafePath s) : ¬ Shown s := by
  obtain ⟨hne, hprint, hhead, -, hoff⟩ := safePath_iff.mp h
  rintro (h | ⟨c, hc, hcontrol⟩ | h | ⟨k, hk, -⟩)
  · exact hne h
  · rw [hprint c hc] at hcontrol
    cases hcontrol
  · exact hhead h
  · exact hoff k hk

theorem Clean.safe (h : Clean s) (hs : ¬ Shown s) : SafePath s := by
  simp only [Shown, not_or, not_exists, not_and, not_not, Bool.not_eq_true] at hs
  obtain ⟨hne, hprint, hhead, hhidden⟩ := hs
  exact safePath_iff.mpr ⟨hne, hprint, hhead, h.2, fun k hk => h.1 k hk (hhidden k hk)⟩

/-! ### Where they agree -/

theorem relativePathSchema_iff : relativePathSchema (.str s) ↔ ¬ Shown s := by
  simp only [relativePathSchema, Schema.allOf_cons, Schema.allOf_nil, Schema.pattern_str,
    Schema.minLength_str, relativePathPattern_iff]
  constructor
  · intro h
    exact h.2.2.1
  · intro h
    exact ⟨trivial, List.length_pos_iff.mpr fun hs => h (.inl hs), h, trivial⟩

theorem safeRelativePath_accepts {lib : Python} :
    (∃ path, safeRelativePath lib s = .ok path) ↔ SafePath s := by
  constructor
  · rintro ⟨path, h⟩
    exact (safeRelativePath_ok.mp h).1
  · intro h
    exact ⟨_, safeRelativePath_ok.mpr ⟨h, rfl⟩⟩

/-- The schema and the validator agree on a text exactly if there is something that both refuse,
or nothing forbidden behind a line separator and no slash at the end. -/
theorem relativePath_agree_iff (lib : Python) (s : Text) :
    (relativePathSchema (.str s) ↔ ∃ path, safeRelativePath lib s = .ok path) ↔ Shown s ∨ Clean s := by
  rw [relativePathSchema_iff, safeRelativePath_accepts]
  constructor
  · intro h
    by_cases hs : Shown s
    · exact .inl hs
    · obtain ⟨-, -, -, hlast, hoff⟩ := safePath_iff.mp (h.mp hs)
      exact .inr ⟨fun k hk => absurd hk (hoff k), hlast⟩
  · rintro (hs | hclean)
    · exact ⟨fun h => absurd hs h, fun hsafe => absurd hs hsafe.not_shown⟩
    · exact ⟨hclean.safe, SafePath.not_shown⟩

/-- The schema admits a path with a slash at its end, which the validator refuses. -/
theorem relativePath_not_the_same :
    relativePathSchema (.str (text "a/")) ∧ ∀ lib, ¬ ∃ path, safeRelativePath lib (text "a/") = .ok path := by
  refine ⟨relativePathSchema_iff.mpr ?_, ?_⟩
  · rintro (h | ⟨c, hc, hcontrol⟩ | h | ⟨k, hk, -⟩)
    · cases h
    · revert c
      decide
    · cases h
    · have hlt : k < 2 := hk.lt
      unfold Offends Dots at hk
      obtain rfl | rfl : k = 0 ∨ k = 1 := by omega
      · simp [text, slash] at hk
      · simp [text, slash] at hk
  · intro lib h
    exact (safePath_iff.mp (safeRelativePath_accepts.mp h)).2.2.2.1 rfl

end Monutchee.Artifact
