import Monutchee.Lib.Json
import Mathlib.Algebra.Order.BigOperators.Group.List
import Mathlib.Algebra.Order.Group.Nat

/-!
# Ustar archives

The bytes of a tar file: a header of one block for each entry, its contents filled up to whole
blocks, two blocks of zeros, and all of it filled up to whole records. Nothing is written for what
does not fit its field.
-/

namespace Monutchee.Lib.Tar

def bytesOf (t : Text) : List UInt8 := t.map UInt8.ofNat

/-- `flag` is `0` for a file, `1` for a second name of the file `target`, `5` for a directory. -/
structure Header where
  name : Text
  mode : ℕ
  size : ℕ
  mtime : ℕ
  flag : Text
  target : Text := []

/-- The characters, filled up with zero bytes. -/
def field (width : ℕ) (t : Text) : List UInt8 := bytesOf (t.take width) ++ List.replicate (width - t.length) 0

def octalDigits : ℕ → ℕ → Text
  | 0, _ => []
  | width + 1, n => octalDigits width (n / 8) ++ [48 + n % 8]

def headerWith (checksum : Text) (h : Header) : List UInt8 :=
  [field 100 h.name, field 8 (octalDigits 7 h.mode), field 8 (octalDigits 7 0), field 8 (octalDigits 7 0),
    field 12 (octalDigits 11 h.size), field 12 (octalDigits 11 h.mtime), field 8 checksum, field 1 h.flag,
    field 100 h.target, field 8 (text "ustar" ++ [0] ++ text "00"), field 247 []].flatten

/-- The checksum is taken with blanks in its own place. -/
def header (h : Header) : List UInt8 :=
  let sum := ((headerWith (text "        ") h).map UInt8.toNat).sum
  headerWith (octalDigits 6 sum ++ [0, 32]) h

/-- What is missing to a multiple of the width. -/
def padding (width n : ℕ) : ℕ := (width - n % width) % width

/-- `data`, filled up to whole blocks. -/
def fill (data : List UInt8) : List UInt8 := data ++ List.replicate (padding 512 data.length) 0

def blocks (entries : List (Header × List UInt8)) : List UInt8 :=
  entries.flatMap fun entry => header entry.1 ++ fill entry.2

/-- The length of the blocks. -/
def size (entries : List (Header × List UInt8)) : ℕ :=
  (entries.map fun entry => 512 + (entry.2.length + padding 512 entry.2.length)).sum

def archive (entries : List (Header × List UInt8)) : List UInt8 :=
  blocks entries ++ List.replicate (1024 + padding 10240 (size entries + 1024)) 0

theorem length_field (width : ℕ) (t : Text) : (field width t).length = width := by
  simp only [field, bytesOf, List.length_append, List.length_map, List.length_take, List.length_replicate]
  omega

theorem length_headerWith (checksum : Text) (h : Header) : (headerWith checksum h).length = 512 := by
  simp [headerWith, length_field]

theorem length_header (h : Header) : (header h).length = 512 := length_headerWith _ h

theorem padding_lt {width : ℕ} (hw : 0 < width) (n : ℕ) : padding width n < width := Nat.mod_lt _ hw

theorem length_blocks (entries : List (Header × List UInt8)) : (blocks entries).length = size entries := by
  simp [blocks, size, fill, List.length_flatMap, length_header]

/-- A tar file is not much longer than what is in it. -/
theorem length_archive_le (entries : List (Header × List UInt8)) :
    (archive entries).length ≤ (entries.map fun entry => entry.2.length + 1024).sum + 11264 := by
  have hsize : size entries ≤ (entries.map fun entry => entry.2.length + 1024).sum := by
    apply List.sum_le_sum
    intro entry _
    have hpadding := padding_lt (by decide : 0 < 512) entry.2.length
    omega
  have hpadding := padding_lt (by decide : 0 < 10240) (size entries + 1024)
  rw [archive, List.length_append, length_blocks, List.length_replicate]
  omega

end Monutchee.Lib.Tar
