import Mathlib.Data.List.Basic

/-!
# Blocks of memory

A block is the list of its cells. `store block off data` overwrites the cells from `off` on;
`grow block n fresh` is the block after a reallocation to `n` cells, whose new cells are `fresh`.
-/

namespace Block

variable {α : Type*}

def store (block : List α) (off : Nat) (data : List α) : List α :=
  block.take off ++ data ++ block.drop (off + data.length)

def grow (block : List α) (n : Nat) (fresh : Nat → α) : List α :=
  block.take n ++ (List.range (n - block.length)).map fresh

theorem length_store {block data : List α} {off : Nat} (h : off + data.length ≤ block.length) :
    (store block off data).length = block.length := by
  simp only [store, List.length_append, List.length_take, List.length_drop]
  omega

/-- Up to the end of the stored data, the block is its old prefix and the data. -/
theorem take_store {block data : List α} {off : Nat} (h : off ≤ block.length) :
    (store block off data).take (off + data.length) = block.take off ++ data := by
  have hlen : (block.take off ++ data).length = off + data.length := by
    rw [List.length_append, List.length_take, Nat.min_eq_left h]
  rw [store, List.take_append_of_le_length (Nat.le_of_eq hlen.symm), List.take_of_length_le (Nat.le_of_eq hlen)]

@[simp] theorem length_grow (block : List α) (n : Nat) (fresh : Nat → α) :
    (grow block n fresh).length = n := by
  simp only [grow, List.length_append, List.length_take, List.length_map, List.length_range]
  omega

/-- A reallocation that does not shrink below `k` keeps the first `k` cells. -/
theorem take_grow {block : List α} {n k : Nat} (fresh : Nat → α) (hk : k ≤ n) (h : k ≤ block.length) :
    (grow block n fresh).take k = block.take k := by
  have hlen : k ≤ (block.take n).length := by
    rw [List.length_take]
    omega
  rw [grow, List.take_append_of_le_length hlen, List.take_take, Nat.min_eq_left hk]

end Block
