import Mathlib.Data.List.Basic

/-!
# Mount tables

A path is a list of names. The latest mount at a path or above it decides what is seen there, so a
mount hides whatever was mounted at or below its point before. A bind mount takes one directory and
not the mounts below it.
-/

namespace Monutchee.Lib

/-- A directory of a file system, and whether it is seen read-only. -/
structure Spot (F N : Type) where
  fs : F
  path : List N
  readonly : Bool
  deriving DecidableEq, Repr

namespace Spot
variable {F N : Type}

def below (s : Spot F N) (rest : List N) : Spot F N := { s with path := s.path ++ rest }

@[simp] theorem below_nil (s : Spot F N) : s.below [] = s := by
  simp [below]

@[simp] theorem below_below (s : Spot F N) (a b : List N) : (s.below a).below b = s.below (a ++ b) := by
  simp [below]

@[simp] theorem below_readonly (s : Spot F N) (rest : List N) : (s.below rest).readonly = s.readonly := rfl

theorem locked_eq {s : Spot F N} (h : s.readonly = true) : { s with readonly := true } = s := by
  rw [← h]

end Spot

structure Mount (F N : Type) where
  point : List N
  spot : Spot F N
  deriving DecidableEq, Repr

/-- `base` is what the root shows, `stack` what is mounted on it, the latest first. -/
structure Mounts (F N : Type) where
  base : Spot F N
  stack : List (Mount F N)
  deriving DecidableEq, Repr

namespace Mounts
variable {F N : Type} [DecidableEq N]

/-- The mount that a path is on. -/
def nearest (t : Mounts F N) (path : List N) : Option (Mount F N) := t.stack.find? fun m => decide (m.point <+: path)

def place (t : Mounts F N) (path : List N) : Spot F N :=
  match t.nearest path with
  | some m => m.spot.below (path.drop m.point.length)
  | none => t.base.below path

def isPoint (t : Mounts F N) (path : List N) : Bool := (t.nearest path).any fun m => decide (m.point = path)

def add (t : Mounts F N) (point : List N) (spot : Spot F N) : Mounts F N := { t with stack := ⟨point, spot⟩ :: t.stack }

def mount (t : Mounts F N) (point : List N) (fs : F) (readonly : Bool) : Mounts F N := t.add point ⟨fs, [], readonly⟩

def bind (t : Mounts F N) (source target : List N) : Mounts F N := t.add target (t.place source)

def lockFirst (point : List N) : List (Mount F N) → List (Mount F N)
  | [] => []
  | m :: ms =>
    if m.point = point then { m with spot := { m.spot with readonly := true } } :: ms
    else if m.point <+: point then m :: ms
    else m :: lockFirst point ms

/-- What is mounted at the point becomes read-only. -/
def lock (t : Mounts F N) (point : List N) : Mounts F N := { t with stack := lockFirst point t.stack }

/-- Move a mount that nothing is mounted below. -/
def move (t : Mounts F N) (source target : List N) : Mounts F N :=
  { t with stack := match t.stack.find? fun m => decide (m.point = source) with
      | some m => ⟨target, m.spot⟩ :: t.stack.eraseP fun m => decide (m.point = source)
      | none => t.stack }

/-- The mount at `root` becomes the root, with the mounts below it. -/
def enter (t : Mounts F N) (root : List N) : Mounts F N where
  base := t.place root
  stack := (t.stack.takeWhile fun m => decide (m.point ≠ root)).filterMap fun m =>
    if root <+: m.point then some ⟨m.point.drop root.length, m.spot⟩ else none

variable {t : Mounts F N} {point path rest : List N} {spot : Spot F N}

/-! ### What is seen after a mount -/

theorem place_add_below : (t.add point spot).place (point ++ rest) = spot.below rest := by
  simp [place, nearest, add]

theorem place_add_at : (t.add point spot).place point = spot := by
  have h : (t.add point spot).place (point ++ []) = spot.below [] := place_add_below
  rwa [List.append_nil, Spot.below_nil] at h

/-- A mount is not seen where it does not cover the path. -/
theorem place_add_apart (h : ¬ point <+: path) : (t.add point spot).place path = t.place path := by
  simp [place, nearest, add, h]

/-- Mounts that do not cover the path can be left out. -/
theorem place_skip {base : Spot F N} {front back : List (Mount F N)} (h : ∀ m ∈ front, ¬ m.point <+: path) :
    (⟨base, front ++ back⟩ : Mounts F N).place path = (⟨base, back⟩ : Mounts F N).place path := by
  induction front with
  | nil => rfl
  | cons m front ih =>
    have hm : ¬ m.point <+: path := h m (List.mem_cons_self ..)
    have hrest := ih fun m' hm' => h m' (List.mem_cons_of_mem _ hm')
    show ((⟨base, front ++ back⟩ : Mounts F N).add m.point m.spot).place path = _
    exact (place_add_apart hm).trans hrest

/-- The mount that decides what is seen. -/
theorem place_found {base : Spot F N} {front back : List (Mount F N)}
    (h : ∀ m ∈ front, ¬ m.point <+: point ++ rest) :
    (⟨base, front ++ ⟨point, spot⟩ :: back⟩ : Mounts F N).place (point ++ rest) = spot.below rest :=
  (place_skip h).trans (place_add_below (t := ⟨base, back⟩))

/-- A mount that is locked when it is made. -/
theorem lock_add : (t.add point spot).lock point = t.add point { spot with readonly := true } := by
  simp [lock, add, lockFirst]

end Mounts

end Monutchee.Lib
