import ToeS.Lib.Memory

/-!
# Faults and shared constants

Kernel code that does not return normally is a `Fault`: a loop that never ends, a read past the end
of an array, or a memory access that the page tables do not map. `clobbered` is where the model ends:
a store through a mapping has reached the memory of a page table.

Pointer chains are followed with `chainFuel` steps: a chain of 32-bit pointers that has not ended
after `2 ^ 32` steps has come back to a node it visited before, and never ends.
-/

namespace ToeS

/-- How kernel code fails to return. -/
inductive Fault where
  | diverges
  | outOfBounds
  | pageFault
  | clobbered
  deriving DecidableEq, Repr

/-- Steps after which a chain of 32-bit pointers is cyclic. -/
def chainFuel : Nat := 4294967296

/-- `PG_SZ` of `kern/inc/x86.h`. -/
def pgSz : Nat := 0x1000

/-- The size of a page as a number. -/
@[simp] lemma pgSz_eq : pgSz = 4096 := rfl

/-- The upper 20 bits of a word. -/
lemma and_frame {x : Nat} (h : x < 4294967296) : x &&& 0xfffff000 = x / 4096 * 4096 := by
  have hm : (0xfffff000 : Nat) = (2 ^ 20 - 1) * 2 ^ 12 := by decide
  apply Nat.eq_of_testBit_eq
  intro i
  rw [Nat.testBit_and, hm, show x / 4096 * 4096 = x / 2 ^ 12 * 2 ^ 12 from rfl,
    Nat.testBit_mul_two_pow, Nat.testBit_mul_two_pow, Nat.testBit_two_pow_sub_one,
    Nat.testBit_div_two_pow]
  by_cases hi : 12 ≤ i
  · rw [show i - 12 + 12 = i by omega]
    by_cases h32 : i < 32
    · simp [hi, show i - 12 < 20 by omega]
    · have hlt : x < 2 ^ i :=
        lt_of_lt_of_le h (Nat.pow_le_pow_right (by decide : 0 < 2) (by omega : 32 ≤ i))
      simp [Nat.testBit_lt_two_pow hlt]
  · simp [hi]

end ToeS
