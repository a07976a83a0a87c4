import Mathlib

/-!
# Output in feedback mode

Each block is made from the one before it and its own number: `block 0` is empty and
`block (i + 1) = next (block i) (i + 1)`. `blocks n` is the first `n` of them in a row. When
all blocks have one length, a request for `k` elements has one answer however many blocks are
made, as long as they are enough (`take_blocks`).
-/

set_option autoImplicit false

namespace Feedback

variable {α : Type} (next : List α → Nat → List α)

def block : Nat → List α
  | 0 => []
  | i + 1 => next (block i) (i + 1)

/-- `block 1`, …, `block n`, in a row. -/
def blocks : Nat → List α
  | 0 => []
  | n + 1 => blocks n ++ block next (n + 1)

variable {next} {size : Nat}

theorem length_block (hsize : ∀ previous i, (next previous i).length = size) (i : Nat) :
    (block next (i + 1)).length = size :=
  hsize _ _

theorem length_blocks (hsize : ∀ previous i, (next previous i).length = size) (n : Nat) :
    (blocks next n).length = size * n := by
  induction n with
  | zero => rfl
  | succ n ih => rw [blocks, List.length_append, ih, length_block hsize, Nat.mul_succ]

/-- More blocks only add at the end. -/
theorem blocks_mono {n m : Nat} (h : n ≤ m) : blocks next n <+: blocks next m := by
  induction h with
  | refl => exact List.prefix_rfl
  | step _ ih => exact ih.trans (List.prefix_append _ _)

/-- **Enough blocks are enough.** -/
theorem take_blocks (hsize : ∀ previous i, (next previous i).length = size) {k n m : Nat}
    (hn : k ≤ size * n) (hm : k ≤ size * m) :
    (blocks next n).take k = (blocks next m).take k := by
  wlog h : n ≤ m generalizing n m
  · exact (this hm hn (Nat.le_of_not_le h)).symm
  · obtain ⟨rest, hrest⟩ := @blocks_mono _ next _ _ h
    rw [← hrest, List.take_append_of_le_length]
    rw [length_blocks hsize]
    exact hn

end Feedback
