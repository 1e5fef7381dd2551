import Monutchee.Logging.RoundTrip

/-!
# The list of changed fields (journal_reader.cpp:50-75, logging.cpp:101-117)

`changed_fields` as it works on its view: each access has the bound that the view has to meet, and
without it there is no result. It accepts what `changed_json` writes and nothing else.
-/

namespace Monutchee.Logging
open Monutchee.System (Bytes ascii)

/-! ### Views -/

def front (view : Bytes) : Option UInt8 := view.head?

def removePrefix (n : ℕ) (view : Bytes) : Option Bytes := if n ≤ view.length then some (view.drop n) else none

def removeSuffix (n : ℕ) (view : Bytes) : Option Bytes :=
  if n ≤ view.length then some (view.take (view.length - n)) else none

def substr (n : ℕ) (view : Bytes) : Option Bytes := if n ≤ view.length then some (view.take n) else none

/-- The loop, for a number of rounds. -/
def readLoop : ℕ → Bytes → List Bytes → Option (List Bytes)
  | 0, _, _ => none
  | rounds + 1, value, result =>
    if value = [] then some result
    else do
      let c ← front value
      if c ≠ 34 then some []
      else do
        let value ← removePrefix 1 value
        match value.findIdx? (· == 34) with
        | none => some []
        | some stop =>
          if stop = 0 ∨ 128 < stop then some []
          else do
            let name ← substr stop value
            if name.all listedByte = false then some []
            else if 64 < (result ++ [name]).length then some []
            else do
              let value ← removePrefix (stop + 1) value
              if value = [] then some (result ++ [name])
              else if (ascii ",\"").isPrefixOf value = false then some []
              else do
                let value ← removePrefix 1 value
                readLoop rounds value (result ++ [name])

/-- A round takes at least one byte. -/
def readFields (value : Bytes) : Option (List Bytes) :=
  if value = ascii "[]" then some []
  else if 64 * 132 < value.length ∨ (ascii "[\"").isPrefixOf value = false ∨ (ascii "\"]").isSuffixOf value = false then
    some []
  else do
    let value ← removePrefix 1 value
    let value ← removeSuffix 1 value
    readLoop (value.length + 1) value []

/-! ### No access is out of bounds -/

theorem find_none {view : Bytes} (h : view.findIdx? (· == 34) = none) : view.takeWhile (· != 34) = view := by
  rw [List.findIdx?_eq_none_iff] at h
  rw [List.takeWhile_eq_self_iff]
  intro c hc
  rw [bne, h c hc]
  rfl

theorem find_some {view : Bytes} {stop : ℕ} (h : view.findIdx? (· == 34) = some stop) :
    stop < view.length ∧ view.takeWhile (· != 34) = view.take stop := by
  obtain ⟨hlt, hstop⟩ := List.findIdx?_eq_some_iff_findIdx_eq.mp h
  refine ⟨hlt, ?_⟩
  rw [List.takeWhile_eq_take_findIdx_not, ← hstop]
  congr 2
  funext c
  rw [bne, Bool.not_not]

section
variable {rest : Bytes} {stop : ℕ} (hfind : rest.findIdx? (· == 34) = some stop)
include hfind

/-- A round that finds the end of a name: every view it takes is inside the one before. -/
theorem readLoop_name (rounds : ℕ) (result : List Bytes) :
    readLoop (rounds + 1) (34 :: rest) result =
      if stop = 0 ∨ 128 < stop then some []
      else if (rest.take stop).all listedByte = false then some []
      else if 64 < (result ++ [rest.take stop]).length then some []
      else if rest.drop (stop + 1) = [] then some (result ++ [rest.take stop])
      else if (ascii ",\"").isPrefixOf (rest.drop (stop + 1)) = false then some []
      else (removePrefix 1 (rest.drop (stop + 1))).bind fun value =>
        readLoop rounds value (result ++ [rest.take stop]) := by
  obtain ⟨hlt, -⟩ := find_some hfind
  have hview : removePrefix 1 (34 :: rest) = some rest := if_pos (Nat.succ_le_succ (Nat.zero_le _))
  have hname : substr stop rest = some (rest.take stop) := if_pos (by omega)
  have hnext : removePrefix (stop + 1) rest = some (rest.drop (stop + 1)) := if_pos (by omega)
  rw [readLoop, if_neg (List.cons_ne_nil 34 rest)]
  have hfront : front (34 :: rest) = some 34 := rfl
  simp only [hfront, hview, Option.bind_eq_bind, Option.bind_some, ne_eq, not_true_eq_false, if_false, hfind, hname,
    hnext]

theorem changedLoop_round (result : List Bytes) :
    changedLoop (34 :: rest) result =
      if stop = 0 ∨ 128 < stop then []
      else if (rest.take stop).all listedByte = false then []
      else if 64 < (result ++ [rest.take stop]).length then []
      else if rest.drop (stop + 1) = [] then result ++ [rest.take stop]
      else if (ascii ",\"").isPrefixOf (rest.drop (stop + 1)) = false then []
      else changedLoop ((rest.drop (stop + 1)).drop 1) (result ++ [rest.take stop]) := by
  obtain ⟨hlt, htake⟩ := find_some hfind
  have hlength : (rest.take stop).length = stop := by
    rw [List.length_take]
    omega
  have hempty : (rest.take stop).isEmpty = (stop == 0) := by
    cases stop with
    | zero => rfl
    | succ n =>
      apply List.isEmpty_eq_false_iff.mpr
      intro hnil
      rw [hnil] at hlength
      cases hlength
  have hne : (stop == rest.length) = false := by
    rw [beq_eq_false_iff_ne]
    omega
  rw [changedLoop]
  simp only [htake, hlength, hempty, hne, Bool.false_or, Bool.or_eq_true, beq_iff_eq, decide_eq_true_eq,
    Bool.not_eq_true', List.isEmpty_iff, bne_self_eq_false]
  rfl
end

theorem readLoop_eq {rounds : ℕ} {value : Bytes} (h : value.length < rounds) (result : List Bytes) :
    readLoop rounds value result = some (changedLoop value result) := by
  induction rounds generalizing value result with
  | zero => omega
  | succ rounds ih =>
    cases value with
    | nil =>
      rw [changedLoop]
      rfl
    | cons c rest =>
      by_cases hc : c = 34
      · subst hc
        cases hfind : rest.findIdx? (· == 34) with
        | none =>
          rw [changedLoop]
          simp [readLoop, front, find_none hfind, removePrefix, hfind]
        | some stop =>
          rw [readLoop_name hfind, changedLoop_round hfind]
          split
          · rfl
          split
          · rfl
          split
          · rfl
          split
          · rfl
          · rename_i hrest
            split
            · rfl
            · have hnext : removePrefix 1 (rest.drop (stop + 1)) = some ((rest.drop (stop + 1)).drop 1) :=
                if_pos (List.length_pos_iff.mpr hrest)
              rw [hnext, Option.bind_some]
              apply ih
              rw [List.length_drop, List.length_drop]
              rw [List.length_cons] at h
              omega
      · rw [changedLoop, readLoop]
        simp [front, hc]

theorem opening_eq : ascii "[\"" = [91, 34] := by decide

theorem closing_eq : ascii "\"]" = [34, 93] := by decide

/-- With both ends in place, the brackets can be taken off. -/
theorem brackets {v : Bytes} (hopen : (ascii "[\"").isPrefixOf v = true) (hclose : (ascii "\"]").isSuffixOf v = true) :
    ∃ inner, inner ≠ [] ∧ v = 91 :: inner ++ [93] := by
  rw [List.isPrefixOf_iff_prefix, opening_eq] at hopen
  rw [List.isSuffixOf_iff_suffix, closing_eq] at hclose
  obtain ⟨t, rfl⟩ := hopen
  obtain ⟨u, hu⟩ := hclose
  cases u with
  | nil => cases hu
  | cons c u =>
    obtain ⟨rfl, hrest⟩ := List.cons_eq_cons.mp hu
    refine ⟨u ++ [34], List.append_ne_nil_of_right_ne_nil _ (List.cons_ne_nil 34 []), ?_⟩
    show 91 :: ([34].append t) = _
    rw [← hrest]
    simp

theorem changedFields_eq (v : Bytes) :
    changedFields v =
      if v = ascii "[]" then []
      else if 64 * 132 < v.length ∨ (ascii "[\"").isPrefixOf v = false ∨ (ascii "\"]").isSuffixOf v = false then []
      else changedLoop (v.drop 1).dropLast [] := by
  unfold changedFields
  simp only [beq_iff_eq, Bool.or_eq_true, decide_eq_true_eq, Bool.not_eq_true', or_assoc]

theorem readFields_eq (v : Bytes) : readFields v = some (changedFields v) := by
  rw [changedFields_eq, readFields]
  split
  · rfl
  split
  · rfl
  · rename_i hends
    obtain ⟨-, hopen, hclose⟩ := not_or.mp hends |>.imp_right not_or.mp
    obtain ⟨inner, -, hv⟩ := brackets (by simpa using hopen) (by simpa using hclose)
    have hfirst : removePrefix 1 v = some (inner ++ [93]) := by
      rw [hv]
      exact if_pos (Nat.succ_le_succ (Nat.zero_le _))
    have hlast : removeSuffix 1 (inner ++ [93]) = some inner := by
      simp [removeSuffix]
    have hdrop : (v.drop 1).dropLast = inner := by
      rw [hv]
      simp
    rw [hdrop, hfirst, Option.bind_eq_bind, Option.bind_some, hlast, Option.bind_some]
    exact readLoop_eq (Nat.lt_succ_self _) []

/-! ### What is accepted was written -/

theorem listed_identifier {n : Bytes} (hne : n ≠ []) (hlen : n.length ≤ 128) (hall : n.all listedByte = true) :
    identifier n = true := by
  unfold identifier
  rw [Bool.and_eq_true, Bool.and_eq_true, Bool.not_eq_true', decide_eq_true_eq, List.all_eq_true]
  refine ⟨⟨List.isEmpty_eq_false_iff.mpr hne, hlen⟩, ?_⟩
  intro c hc
  have hlisted := List.all_eq_true.mp hall c hc
  simp only [listedByte, Bool.or_eq_true] at hlisted ⊢
  tauto

theorem find_split {rest : Bytes} {stop : ℕ} (hfind : rest.findIdx? (· == 34) = some stop) :
    rest = rest.take stop ++ 34 :: rest.drop (stop + 1) := by
  obtain ⟨hlt, hquote, -⟩ := List.findIdx?_eq_some_iff_getElem.mp hfind
  have hdrop := List.drop_eq_getElem_cons hlt
  rw [beq_iff_eq] at hquote
  rw [hquote] at hdrop
  rw [← hdrop, List.take_append_drop]

theorem commaList_cons {n : Bytes} {names : List Bytes} (h : names ≠ []) :
    commaList (n :: names) = 34 :: (n ++ 34 :: 44 :: commaList names) := by
  cases names with
  | nil => exact absurd rfl h
  | cons m names => simp [commaList]

theorem listed_name {rest : Bytes} {stop : ℕ} (hlt : stop < rest.length) (hstop : ¬ (stop = 0 ∨ 128 < stop))
    (hall : ¬ (rest.take stop).all listedByte = false) : identifier (rest.take stop) = true := by
  apply listed_identifier
  · intro hnil
    have hlength := congrArg List.length hnil
    rw [List.length_take, List.length_nil] at hlength
    omega
  · rw [List.length_take]
    omega
  · simpa using hall

/-- A round that is not a refusal adds a name, which ends the value or has a comma and a quote behind it. -/
theorem changedLoop_accepts {c : UInt8} {rest : Bytes} {result : List Bytes} (h : changedLoop (c :: rest) result ≠ []) :
    ∃ name, identifier name = true ∧ (result ++ [name]).length ≤ 64 ∧
      ((c :: rest = commaList [name] ∧ changedLoop (c :: rest) result = result ++ [name]) ∨
        ∃ next, c :: rest = 34 :: (name ++ 34 :: 44 :: 34 :: next) ∧
          changedLoop (c :: rest) result = changedLoop (34 :: next) (result ++ [name])) := by
  by_cases hc : c = 34
  · subst hc
    cases hfind : rest.findIdx? (· == 34) with
    | none =>
      rw [changedLoop] at h
      simp [find_none hfind] at h
    | some stop =>
      have hsplit := find_split hfind
      rw [changedLoop_round hfind] at h ⊢
      split at h
      · exact absurd rfl h
      rename_i hstop
      split at h
      · exact absurd rfl h
      rename_i hall
      split at h
      · exact absurd rfl h
      rename_i hcount
      rw [if_neg hstop, if_neg hall, if_neg hcount]
      refine ⟨rest.take stop, listed_name (find_some hfind).1 hstop hall, by omega, ?_⟩
      split at h
      · rename_i hrest
        rw [if_pos hrest]
        rw [hrest] at hsplit
        left
        refine ⟨?_, rfl⟩
        show 34 :: rest = 34 :: (rest.take stop ++ [34])
        rw [← hsplit]
      rename_i hrest
      split at h
      · exact absurd rfl h
      rename_i hcomma
      have hbegins : ascii ",\"" <+: rest.drop (stop + 1) := by simpa using hcomma
      obtain ⟨next, hnext⟩ := hbegins
      rw [if_neg hrest, if_neg hcomma, ← hnext]
      rw [← hnext] at hsplit
      right
      refine ⟨next, ?_, rfl⟩
      show 34 :: rest = 34 :: (rest.take stop ++ 34 :: 44 :: 34 :: next)
      exact congrArg (34 :: ·) hsplit
  · rw [changedLoop] at h
    simp [hc] at h

/-- A text that the loop accepts is the list of the names that it adds. -/
theorem changedLoop_sound {bound : ℕ} {value : Bytes} (hbound : value.length < bound) (hvalue : value ≠ [])
    {result : List Bytes} (h : changedLoop value result ≠ []) :
    ∃ names, names ≠ [] ∧ value = commaList names ∧ changedLoop value result = result ++ names ∧
      (∀ n ∈ names, identifier n = true) ∧ (result ++ names).length ≤ 64 := by
  induction bound generalizing value result with
  | zero => omega
  | succ bound ih =>
    cases value with
    | nil => exact absurd rfl hvalue
    | cons c rest =>
      obtain ⟨name, hname, hcount, ⟨hvalue, hround⟩ | ⟨next, hvalue, hround⟩⟩ := changedLoop_accepts h
      · refine ⟨[name], List.cons_ne_nil _ _, hvalue, hround, ?_, hcount⟩
        intro n hmem
        rw [List.mem_singleton.mp hmem]
        exact hname
      · have hshort : (34 :: next).length < bound := by
          rw [hvalue] at hbound
          simp only [List.length_cons, List.length_append] at hbound ⊢
          omega
        rw [hround] at h ⊢
        obtain ⟨names, hne, hnames, hresult, hids, hmany⟩ := ih hshort (List.cons_ne_nil 34 next) h
        refine ⟨name :: names, List.cons_ne_nil _ _, ?_, ?_, ?_, ?_⟩
        · rw [commaList_cons hne, ← hnames, hvalue]
        · rw [hresult, List.append_assoc]
          rfl
        · intro n hmem
          cases List.mem_cons.mp hmem with
          | inl hhead => exact hhead ▸ hname
          | inr htail => exact hids n htail
        · rw [List.append_assoc] at hmany
          exact hmany

theorem changedFields_sound {v : Bytes} (h : changedFields v ≠ []) :
    v = changedJson (changedFields v) ∧ (∀ n ∈ changedFields v, identifier n = true) ∧ (changedFields v).length ≤ 64 := by
  rw [changedFields_eq] at h ⊢
  split at h
  · exact absurd rfl h
  rename_i hnil
  split at h
  · exact absurd rfl h
  · rename_i hends
    rw [if_neg hnil, if_neg hends]
    obtain ⟨-, hopen, hclose⟩ := not_or.mp hends |>.imp_right not_or.mp
    obtain ⟨inner, hinner, hv⟩ := brackets (by simpa using hopen) (by simpa using hclose)
    have hdrop : (v.drop 1).dropLast = inner := by
      rw [hv]
      simp
    rw [hdrop] at h ⊢
    obtain ⟨names, -, hnames, hresult, hids, hmany⟩ := changedLoop_sound (Nat.lt_succ_self _) hinner h
    rw [hresult, List.nil_append]
    refine ⟨?_, hids, hmany⟩
    rw [changedJson_eq, ← hnames, hv]

/-- The names of a list that the writer emits. -/
def Listable (names : List Bytes) : Prop :=
  1 ≤ names.length ∧ names.length ≤ 64 ∧ ∀ n ∈ names, identifier n = true

/-- The decoder accepts exactly what the encoder writes, and never reads outside its view. -/
theorem changedFields_exact (v : Bytes) :
    (∀ names, (names ≠ [] ∧ changedFields v = names) ↔ (v = changedJson names ∧ Listable names)) ∧
      ((∀ names, Listable names → v ≠ changedJson names) → changedFields v = []) ∧
      readFields v = some (changedFields v) := by
  have hexact : ∀ names, (names ≠ [] ∧ changedFields v = names) ↔ (v = changedJson names ∧ Listable names) := by
    intro names
    constructor
    · rintro ⟨hne, rfl⟩
      obtain ⟨hv, hids, hmany⟩ := changedFields_sound hne
      exact ⟨hv, List.length_pos_iff.mpr hne, hmany, hids⟩
    · rintro ⟨rfl, hone, hmany, hids⟩
      exact ⟨List.length_pos_iff.mp hone, changedFields_written names hids hmany⟩
  refine ⟨hexact, ?_, readFields_eq v⟩
  intro hother
  by_contra hne
  obtain ⟨hv, hlist⟩ := (hexact (changedFields v)).mp ⟨hne, rfl⟩
  exact hother _ hlist hv

end Monutchee.Logging
