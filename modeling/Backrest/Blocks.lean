import Mathlib.Data.List.Basic

/-!
# Blocks of a list

A list seen as blocks of one size, of which the last may be shorter. Where the size of a
first part is a multiple of the block size, the blocks of the whole are those of the first
part and then those of the rest.
-/

namespace Blocks

universe u

variable {α : Type u} {size : Nat}

/-- The block at an index, shorter than the size (or empty) at the end of the list. -/
def block (size : Nat) (items : List α) (i : Nat) : List α := (items.drop (i * size)).take size

/-- How many blocks there are, the shorter one at the end included. -/
def blockCount (size : Nat) (items : List α) : Nat := (items.length + (size - 1)) / size

theorem length_block (items : List α) (i : Nat) :
    (block size items i).length = min size (items.length - i * size) := by
  simp [block]

theorem blockCount_nil (hsize : 0 < size) : blockCount size ([] : List α) = 0 := by
  rw [blockCount, List.length_nil, Nat.div_eq_zero_iff]
  omega

theorem blockCount_of_aligned {items : List α} (aligned : items.length % size = 0)
    (hsize : 0 < size) : blockCount size items = items.length / size := by
  have whole : items.length = size * (items.length / size) :=
    (Nat.mul_div_cancel' (Nat.dvd_of_mod_eq_zero aligned)).symm
  rw [blockCount]
  generalize items.length / size = n at whole
  rw [whole, Nat.mul_add_div hsize, Nat.div_eq_of_lt (by omega)]
  omega

theorem blockCount_of_partial {items : List α} (rest : items.length % size ≠ 0) (hsize : 0 < size) :
    blockCount size items = items.length / size + 1 := by
  have whole : items.length = size * (items.length / size) + items.length % size :=
    (Nat.div_add_mod items.length size).symm
  have short := Nat.mod_lt items.length hsize
  rw [blockCount]
  generalize items.length / size = n at whole
  generalize items.length % size = r at *
  have last : (r + (size - 1)) / size = 1 := Nat.div_eq_of_lt_le (by omega) (by omega)
  rw [whole, Nat.add_assoc, Nat.mul_add_div hsize, last]

theorem length_block_eq_iff (items : List α) (i : Nat) (hsize : 0 < size) :
    (block size items i).length < size ↔ items.length < (i + 1) * size := by
  rw [length_block, Nat.add_one_mul]
  omega

section Append

variable {front back : List α}

theorem blockCount_append (aligned : front.length % size = 0) (hsize : 0 < size) :
    blockCount size (front ++ back) = blockCount size front + blockCount size back := by
  rw [blockCount_of_aligned aligned hsize]
  have whole : front.length = size * (front.length / size) :=
    (Nat.mul_div_cancel' (Nat.dvd_of_mod_eq_zero aligned)).symm
  rw [blockCount, blockCount, List.length_append]
  generalize front.length / size = n at whole
  rw [whole, Nat.add_assoc, Nat.mul_add_div hsize]

theorem block_append_left {i : Nat} (aligned : front.length % size = 0) (hsize : 0 < size)
    (before : i < blockCount size front) : block size (front ++ back) i = block size front i := by
  rw [blockCount_of_aligned aligned hsize] at before
  have ends : (i + 1) * size ≤ front.length :=
    Nat.le_trans (Nat.mul_le_mul_right size before) (Nat.div_mul_le_self front.length size)
  rw [Nat.add_one_mul] at ends
  rw [block, block, List.drop_append_of_le_length (by omega),
    List.take_append_of_le_length (by rw [List.length_drop]; omega)]

theorem block_append_right (i : Nat) (aligned : front.length % size = 0) (hsize : 0 < size) :
    block size (front ++ back) (blockCount size front + i) = block size back i := by
  rw [blockCount_of_aligned aligned hsize]
  have whole : front.length / size * size = front.length :=
    Nat.div_mul_cancel (Nat.dvd_of_mod_eq_zero aligned)
  rw [block, block, Nat.add_mul, whole, List.drop_append]
  have none : front.drop (front.length + i * size) = [] := List.drop_eq_nil_of_le (by omega)
  rw [none, List.nil_append, Nat.add_sub_cancel_left]

end Append

end Blocks
