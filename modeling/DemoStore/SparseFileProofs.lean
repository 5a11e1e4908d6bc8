import Mathlib.Algebra.Ring.Nat
import Mathlib.Data.List.GetD
import Mathlib.Data.Nat.Basic

/-! # Sparse files — positioned reads and writes, and little-endian words

    A file is a size and a byte at every position, zero where nothing was
    written: a hole and the space behind the end read the same.  `pread`
    transfers the bytes that exist, `pwrite` extends the file when it has to.
    The last section is the little-endian encoding of machine words, with the
    round trip at every width. -/

namespace SparseFile

open List

/-- A file: bytes at or past the end are zero, so a later write that skips
    them leaves a hole. -/
structure File where
  size : Nat
  byte : Nat → UInt8
  hole : ∀ i, size ≤ i → byte i = 0

/-- The file just created. -/
def empty : File := ⟨0, fun _ => 0, fun _ _ => rfl⟩

/-- A file of `n` zeros. -/
def File.zeros (n : Nat) : File := ⟨n, fun _ => 0, fun _ _ => rfl⟩

/-- The `n` bytes from `off` on, whether or not they lie inside the file. -/
def bytes (f : File) (off n : Nat) : List UInt8 :=
  (List.range n).map fun i => f.byte (off + i)

/-- `pread`: the bytes of the range that exist. -/
def pread (f : File) (off n : Nat) : List UInt8 :=
  bytes f off (min n (f.size - off))

/-- `pwrite` of a non-empty buffer. -/
def pwrite (f : File) (off : Nat) (data : List UInt8) : File where
  size := if data = [] then f.size else max f.size (off + data.length)
  byte := fun i =>
    if off ≤ i ∧ i < off + data.length then data.getD (i - off) 0 else f.byte i
  hole := by
    intro i hi
    split at hi
    · rename_i hd
      subst hd
      rw [if_neg (by simp)]
      exact f.hole i hi
    · rw [if_neg (by omega)]
      exact f.hole i (by omega)

@[simp] theorem length_bytes (f : File) (off n : Nat) : (bytes f off n).length = n := by
  simp [bytes]

/-- A read ends at the end of the file. -/
@[simp] theorem length_pread (f : File) (off n : Nat) :
    (pread f off n).length = min n (f.size - off) := by
  simp [pread]

variable {f : File} {off n : Nat} {data : List UInt8}

/-- Inside the file a read transfers everything that was asked for. -/
theorem pread_of_le (h : off + n ≤ f.size) : pread f off n = bytes f off n := by
  rw [pread, Nat.min_eq_left (by omega)]

/-- Files that agree on a range read the same there. -/
theorem bytes_congr {g : File} (h : ∀ i < n, f.byte (off + i) = g.byte (off + i)) :
    bytes f off n = bytes g off n := by
  refine map_congr_left ?_
  intro i hi
  exact h i (mem_range.mp hi)

theorem take_bytes (f : File) (off n k : Nat) : (bytes f off n).take k = bytes f off (min k n) := by
  rw [bytes, bytes, ← map_take, take_range]

theorem drop_bytes (f : File) (off n k : Nat) :
    (bytes f off n).drop k = bytes f (off + k) (n - k) := by
  refine ext_getElem (by simp) ?_
  intro i h1 h2
  simp only [bytes, getElem_drop, getElem_map, getElem_range]
  congr 1
  omega

/-- Behind the end there are zeros. -/
theorem bytes_of_size_le (h : f.size ≤ off) : bytes f off n = List.replicate n 0 := by
  refine ext_getElem (by simp) ?_
  intro i h1 h2
  simp only [bytes, getElem_map, getElem_range, getElem_replicate]
  exact f.hole _ (by omega)

/-! ## Reading back a write -/

/-- A write can make the file longer. -/
theorem pwrite_size (h : data ≠ []) :
    (pwrite f off data).size = max f.size (off + data.length) := if_neg h

/-- What was written is read back. -/
theorem bytes_pwrite_self (f : File) (off : Nat) (data : List UInt8) :
    bytes (pwrite f off data) off data.length = data := by
  refine ext_getElem (by simp) ?_
  intro i h1 h2
  simp only [bytes, getElem_map, getElem_range, pwrite]
  rw [if_pos (by omega), Nat.add_sub_cancel_left, getD_eq_getElem _ _ h2]

/-- A range apart from the write reads as before. -/
theorem bytes_pwrite_of_disjoint {o : Nat} (h : o + n ≤ off ∨ off + data.length ≤ o) :
    bytes (pwrite f off data) o n = bytes f o n := by
  refine bytes_congr ?_
  intro i hi
  show (if off ≤ o + i ∧ o + i < off + data.length then _ else _) = _
  rw [if_neg (by omega)]

/-! ## Little-endian words -/

/-- The `k` low bytes of `n`, least significant first. -/
def leBytes : Nat → Nat → List UInt8
  | 0, _ => []
  | k + 1, n => UInt8.ofNat n :: leBytes k (n / 256)

/-- The number a byte string stands for. -/
def leNat : List UInt8 → Nat
  | [] => 0
  | b :: bs => b.toNat + 256 * leNat bs

@[simp] theorem length_leBytes (k n : Nat) : (leBytes k n).length = k := by
  induction k generalizing n with
  | zero => rfl
  | succ k ih => rw [leBytes, length_cons, ih]

/-- Encoding keeps the number up to the width. -/
theorem leNat_leBytes (k n : Nat) : leNat (leBytes k n) = n % 256 ^ k := by
  induction k generalizing n with
  | zero => rw [leBytes, leNat, Nat.pow_zero, Nat.mod_one]
  | succ k ih =>
    rw [leBytes, leNat, ih, Nat.pow_succ']
    rw [show (UInt8.ofNat n).toNat = n % 256 from UInt8.toNat_ofNat']
    exact (Nat.mod_mul).symm

/-- A word of eight bytes. -/
def le64 (w : UInt64) : List UInt8 := leBytes 8 w.toNat

/-- Decode a word of eight bytes. -/
def word64 (bs : List UInt8) : UInt64 := UInt64.ofNat (leNat bs)

@[simp] theorem length_le64 (w : UInt64) : (le64 w).length = 8 := length_leBytes 8 w.toNat

/-- A word is read as it was written. -/
@[simp] theorem word64_le64 (w : UInt64) : word64 (le64 w) = w := by
  have hlt : w.toNat < 256 ^ 8 := w.toNat_lt
  rw [word64, le64, leNat_leBytes, Nat.mod_eq_of_lt hlt]
  exact UInt64.ofNat_toNat

theorem leNat_replicate_zero (k : Nat) : leNat (List.replicate k 0) = 0 := by
  induction k with
  | zero => rfl
  | succ k ih =>
    show (0 : UInt8).toNat + 256 * leNat (List.replicate k 0) = 0
    rw [ih]
    rfl

end SparseFile
