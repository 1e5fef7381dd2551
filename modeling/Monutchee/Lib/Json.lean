import Monutchee.Lib.Regex
import Mathlib.Algebra.Ring.Int.Defs
import Mathlib.Algebra.Ring.Nat
import Mathlib.Data.Rat.Defs
import Mathlib.Data.List.Dedup
import Mathlib.Data.List.Forall2

/-!
# JSON values and the keywords of JSON Schema

A text is a list of code points, lone surrogates included. An object is the list of its
members as they were written; its meaning is the partial function `lookup`, so that the
order of the members plays no role. A schema is the set of the values it admits, and a
keyword says nothing about a value of another kind than its own.
-/

namespace Monutchee.Lib

abbrev Text := List ℕ

instance : LawfulBEq Text := List.instLawfulBEq

instance : LawfulBEq (List Text) := List.instLawfulBEq

/-- The code points of a literal. -/
def text (s : String) : Text := s.toList.map Char.toNat

/-- The value of a hexadecimal digit. -/
def hexValue (c : ℕ) : Option ℕ :=
  if 48 ≤ c ∧ c ≤ 57 then some (c - 48)
  else if 97 ≤ c ∧ c ≤ 102 then some (c - 87)
  else if 65 ≤ c ∧ c ≤ 70 then some (c - 55)
  else none

/-- A value as a reader hands it over: a number without fraction and exponent is an integer,
`notFinite` stands for `NaN` and the infinities, which some readers let pass. -/
inductive Json where
  | null
  | bool (b : Bool)
  | int (n : ℤ)
  | float (x : ℚ)
  | notFinite
  | str (s : Text)
  | arr (l : List Json)
  | obj (ps : List (Text × Json))

namespace Json

def number? : Json → Option ℚ
  | .int n => some n
  | .float x => some x
  | _ => none

/-- Equality of values: numbers by their value, objects as functions of the key. -/
inductive Same : Json → Json → Prop
  | null : Same .null .null
  | bool (b : Bool) : Same (.bool b) (.bool b)
  | number {a b : Json} {x : ℚ} (ha : a.number? = some x) (hb : b.number? = some x) : Same a b
  | str (s : Text) : Same (.str s) (.str s)
  | arr {l m : List Json} (h : List.Forall₂ Same l m) : Same (.arr l) (.arr m)
  | obj {ps qs : List (Text × Json)}
      (hkeys : ∀ k, (ps.lookup k).isSome = (qs.lookup k).isSome)
      (hvalues : ∀ k v w, ps.lookup k = some v → qs.lookup k = some w → Same v w) :
      Same (.obj ps) (.obj qs)

/-- The same value up to the order of the members of its objects: what is left of a value that was
written with sorted keys and read again. -/
inductive Rearranged : Json → Json → Prop
  | null : Rearranged .null .null
  | bool (b : Bool) : Rearranged (.bool b) (.bool b)
  | int (n : ℤ) : Rearranged (.int n) (.int n)
  | float (x : ℚ) : Rearranged (.float x) (.float x)
  | str (s : Text) : Rearranged (.str s) (.str s)
  | arr {l m : List Json} (h : List.Forall₂ Rearranged l m) : Rearranged (.arr l) (.arr m)
  | obj {ps qs : List (Text × Json)}
      (hkeys : ∀ k, (ps.lookup k).isSome = (qs.lookup k).isSome)
      (hvalues : ∀ k v w, ps.lookup k = some v → qs.lookup k = some w → Rearranged v w) :
      Rearranged (.obj ps) (.obj qs)

/-- No object of the value has two members of one key. -/
inductive Unique : Json → Prop
  | null : Unique .null
  | bool (b : Bool) : Unique (.bool b)
  | int (n : ℤ) : Unique (.int n)
  | float (x : ℚ) : Unique (.float x)
  | notFinite : Unique .notFinite
  | str (s : Text) : Unique (.str s)
  | arr {l : List Json} (h : ∀ v ∈ l, Unique v) : Unique (.arr l)
  | obj {ps : List (Text × Json)} (hkeys : (ps.map Prod.fst).Nodup)
      (hvalues : ∀ v ∈ ps.map Prod.snd, Unique v) : Unique (.obj ps)

namespace Rearranged

variable {v w : Json} {ps qs : List (Text × Json)} {k : Text}

theorem number? (h : Rearranged v w) : v.number? = w.number? := by
  cases h <;> rfl

theorem int_eq {n : ℤ} (h : Rearranged v (.int n)) : v = .int n := by
  cases h
  rfl

theorem str_eq {s : Text} (h : Rearranged v (.str s)) : v = .str s := by
  cases h
  rfl

theorem obj_eq (h : Rearranged v (.obj qs)) : ∃ ps, v = .obj ps := by
  cases h
  exact ⟨_, rfl⟩

theorem lookup_isSome (h : Rearranged (.obj ps) (.obj qs)) :
    (ps.lookup k).isSome = (qs.lookup k).isSome := by
  cases h with
  | obj hkeys _ => exact hkeys k

theorem lookup_eq_none (h : Rearranged (.obj ps) (.obj qs)) (hk : qs.lookup k = none) :
    ps.lookup k = none := by
  have := h.lookup_isSome (k := k)
  rw [hk] at this
  exact Option.not_isSome_iff_eq_none.mp (by simp [this])

theorem lookup_left (h : Rearranged (.obj ps) (.obj qs)) (hk : qs.lookup k = some w) :
    ∃ v, ps.lookup k = some v ∧ Rearranged v w := by
  cases h with
  | obj hkeys hvalues =>
    have hsome : (ps.lookup k).isSome = true := by
      rw [hkeys k, hk]
      rfl
    obtain ⟨v, hv⟩ := Option.isSome_iff_exists.mp hsome
    exact ⟨v, hv, hvalues k v w hv hk⟩

theorem lookup_right (h : Rearranged (.obj ps) (.obj qs)) (hk : ps.lookup k = some v) :
    ∃ w, qs.lookup k = some w ∧ Rearranged v w := by
  cases h with
  | obj hkeys hvalues =>
    have hsome : (qs.lookup k).isSome = true := by
      rw [← hkeys k, hk]
      rfl
    obtain ⟨w, hw⟩ := Option.isSome_iff_exists.mp hsome
    exact ⟨w, hw, hvalues k v w hk hw⟩

theorem lookup_str {s : Text} (h : Rearranged (.obj ps) (.obj qs)) (hk : qs.lookup k = some (.str s)) :
    ps.lookup k = some (.str s) := by
  obtain ⟨v, hv, hr⟩ := h.lookup_left hk
  rw [hv, hr.str_eq]

theorem lookup_int {n : ℤ} (h : Rearranged (.obj ps) (.obj qs)) (hk : qs.lookup k = some (.int n)) :
    ps.lookup k = some (.int n) := by
  obtain ⟨v, hv, hr⟩ := h.lookup_left hk
  rw [hv, hr.int_eq]

theorem lookup_obj {rs : List (Text × Json)} (h : Rearranged (.obj ps) (.obj qs))
    (hk : qs.lookup k = some (.obj rs)) :
    ∃ ts, ps.lookup k = some (.obj ts) ∧ Rearranged (.obj ts) (.obj rs) := by
  obtain ⟨v, hv, hr⟩ := h.lookup_left hk
  obtain ⟨ts, rfl⟩ := hr.obj_eq
  exact ⟨ts, hv, hr⟩

/-- It is enough to look at the members that are there. -/
theorem obj_of_mem
    (hps : ∀ p ∈ ps, ∃ w, qs.lookup p.1 = some w ∧ Rearranged p.2 w)
    (hqs : ∀ q ∈ qs, (ps.lookup q.1).isSome = true) : Rearranged (.obj ps) (.obj qs) := by
  have hright : ∀ k v, ps.lookup k = some v → ∃ w, qs.lookup k = some w ∧ Rearranged v w := by
    intro k v hv
    obtain ⟨l, m, rfl, -⟩ := List.lookup_eq_some_iff.mp hv
    exact hps (k, v) (by simp)
  have hleft : ∀ k w, qs.lookup k = some w → (ps.lookup k).isSome = true := by
    intro k w hw
    obtain ⟨l, m, rfl, -⟩ := List.lookup_eq_some_iff.mp hw
    exact hqs (k, w) (by simp)
  refine .obj ?_ ?_
  · intro k
    rw [Bool.eq_iff_iff, Option.isSome_iff_exists, Option.isSome_iff_exists]
    constructor
    · rintro ⟨v, hv⟩
      obtain ⟨w, hw, -⟩ := hright k v hv
      exact ⟨w, hw⟩
    · rintro ⟨w, hw⟩
      exact Option.isSome_iff_exists.mp (hleft k w hw)
  · intro k v w hv hw
    obtain ⟨w', hw', hr⟩ := hright k v hv
    rw [hw] at hw'
    cases hw'
    exact hr

end Rearranged

/-- Without a repeated key every member is found under its key. -/
theorem lookup_of_mem {ps : List (Text × Json)} {k : Text} {v : Json}
    (hkeys : (ps.map Prod.fst).Nodup) (h : (k, v) ∈ ps) : ps.lookup k = some v := by
  induction ps with
  | nil => cases h
  | cons p rest ih =>
    obtain ⟨k', v'⟩ := p
    rw [List.map_cons, List.nodup_cons] at hkeys
    rw [List.lookup_cons]
    rcases List.mem_cons.mp h with he | hrest
    · cases he
      simp
    · have hne : (k == k') = false := by
        rw [beq_eq_false_iff_ne]
        rintro rfl
        exact hkeys.1 (List.mem_map.mpr ⟨(k, v), hrest, rfl⟩)
      rw [hne]
      exact ih hkeys.2 hrest

theorem Unique.nodup {ps : List (Text × Json)} (h : (Json.obj ps).Unique) :
    (ps.map Prod.fst).Nodup := by
  cases h with
  | obj hkeys _ => exact hkeys

theorem Unique.of_lookup {ps : List (Text × Json)} {k : Text} {v : Json}
    (h : (Json.obj ps).Unique) (hk : ps.lookup k = some v) : v.Unique := by
  cases h with
  | obj _ hvalues =>
    obtain ⟨l, m, rfl, -⟩ := List.lookup_eq_some_iff.mp hk
    exact hvalues v (by simp)

/-! ### Reading with a hook for objects -/

mutual

/-- The reader calls `hook` on the members of each object, inner objects first, and takes its
answer in the object's place. -/
def rebuild {ε : Type} (hook : List (Text × Json) → Except ε Json) : Json → Except ε Json
  | .arr l => do
    let items ← rebuildItems hook l
    return .arr items
  | .obj ps => do
    let pairs ← rebuildPairs hook ps
    hook pairs
  | .null => return .null
  | .bool b => return .bool b
  | .int n => return .int n
  | .float x => return .float x
  | .notFinite => return .notFinite
  | .str s => return .str s

def rebuildItems {ε : Type} (hook : List (Text × Json) → Except ε Json) :
    List Json → Except ε (List Json)
  | [] => return []
  | v :: l => do
    let w ← rebuild hook v
    let items ← rebuildItems hook l
    return w :: items

def rebuildPairs {ε : Type} (hook : List (Text × Json) → Except ε Json) :
    List (Text × Json) → Except ε (List (Text × Json))
  | [] => return []
  | (k, v) :: ps => do
    let w ← rebuild hook v
    let pairs ← rebuildPairs hook ps
    return (k, w) :: pairs

end

section Hook

variable {ε : Type} {hook : List (Text × Json) → Except ε Json}

theorem rebuildItems_self {l : List Json} (h : ∀ v ∈ l, rebuild hook v = .ok v) :
    rebuildItems hook l = .ok l := by
  induction l with
  | nil => rfl
  | cons v l ih =>
    have hv : rebuild hook v = .ok v := h v (List.mem_cons_self ..)
    have hl : rebuildItems hook l = .ok l := ih fun w hw => h w (List.mem_cons_of_mem _ hw)
    simp only [rebuildItems, hv, hl]
    rfl

theorem rebuildPairs_self {ps : List (Text × Json)}
    (h : ∀ v ∈ ps.map Prod.snd, rebuild hook v = .ok v) : rebuildPairs hook ps = .ok ps := by
  induction ps with
  | nil => rfl
  | cons p ps ih =>
    obtain ⟨k, v⟩ := p
    have hv : rebuild hook v = .ok v := h v (List.mem_cons_self ..)
    have hl : rebuildPairs hook ps = .ok ps := ih fun w hw => h w (List.mem_cons_of_mem _ hw)
    simp only [rebuildPairs, hv, hl]
    rfl

/-- A hook that gives back every object without a repeated key changes no such value. -/
theorem rebuild_unique
    (hhook : ∀ ps : List (Text × Json), (ps.map Prod.fst).Nodup → hook ps = .ok (.obj ps))
    {v : Json} (h : v.Unique) : rebuild hook v = .ok v := by
  induction h with
  | arr _ ih =>
    simp only [rebuild, rebuildItems_self ih]
    rfl
  | obj hkeys _ ih =>
    simp only [rebuild, rebuildPairs_self ih]
    exact hhook _ hkeys
  | _ => simp only [rebuild]; rfl

end Hook

/-! ### Keywords -/

inductive Kind where
  | null
  | boolean
  | integer
  | number
  | string
  | array
  | object
  deriving DecidableEq

/-- `1.0` is an integer too. -/
def hasKind : Kind → Json → Prop
  | .null, .null => True
  | .boolean, .bool _ => True
  | .integer, v => ∃ n : ℤ, v.number? = some (n : ℚ)
  | .number, v => ∃ x, v.number? = some x
  | .string, .str _ => True
  | .array, .arr _ => True
  | .object, .obj _ => True
  | _, _ => False

end Json

def Schema := Json → Prop

namespace Schema

/-- The schema `false`. -/
def never : Schema := fun _ => False

def type (kind : Json.Kind) : Schema := Json.hasKind kind

def const (c : Json) : Schema := fun v => v.Same c

def enum (cs : List Json) : Schema := fun v => ∃ c ∈ cs, v.Same c

def minimum (x : ℚ) : Schema := fun v => ∀ y, v.number? = some y → x ≤ y

def minLength (n : ℕ) : Schema := fun v => ∀ s, v = .str s → n ≤ s.length

def pattern (r : Regex ℕ) : Schema := fun v => ∀ s, v = .str s → r.test s

def required (keys : List Text) : Schema := fun v =>
  ∀ ps, v = .obj ps → ∀ k ∈ keys, (ps.lookup k).isSome = true

def properties (schemas : List (Text × Schema)) : Schema := fun v =>
  ∀ ps, v = .obj ps → ∀ q ∈ schemas, ∀ w, ps.lookup q.1 = some w → q.2 w

/-- Members that `properties` beside it does not name. -/
def additionalProperties (names : List Text) (schema : Schema) : Schema := fun v =>
  ∀ ps, v = .obj ps → ∀ k w, ps.lookup k = some w → k ∉ names → schema w

def propertyNames (schema : Schema) : Schema := fun v =>
  ∀ ps, v = .obj ps → ∀ k ∈ ps.map Prod.fst, schema (.str k)

def minProperties (n : ℕ) : Schema := fun v =>
  ∀ ps, v = .obj ps → n ≤ (ps.map Prod.fst).dedup.length

def allOf (schemas : List Schema) : Schema := fun v => ∀ q ∈ schemas, q v

def not (schema : Schema) : Schema := fun v => ¬ schema v

@[simp] theorem allOf_nil {v : Json} : allOf [] v ↔ True := by
  simp [allOf]

@[simp] theorem allOf_cons {schema : Schema} {schemas : List Schema} {v : Json} :
    allOf (schema :: schemas) v ↔ schema v ∧ allOf schemas v := by
  simp [allOf]

@[simp] theorem minLength_str {n : ℕ} {s : Text} : minLength n (.str s) ↔ n ≤ s.length := by
  simp [minLength]

@[simp] theorem pattern_str {r : Regex ℕ} {s : Text} : pattern r (.str s) ↔ r.test s := by
  simp [pattern]

@[simp] theorem properties_nil {ps : List (Text × Json)} : properties [] (.obj ps) ↔ True := by
  simp [properties]

@[simp] theorem properties_cons {ps : List (Text × Json)} {k : Text} {schema : Schema}
    {schemas : List (Text × Schema)} :
    properties ((k, schema) :: schemas) (.obj ps) ↔
      (∀ w, ps.lookup k = some w → schema w) ∧ properties schemas (.obj ps) := by
  simp [properties]

end Schema

end Monutchee.Lib
