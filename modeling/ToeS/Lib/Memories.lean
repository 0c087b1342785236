import ToeS.Lib.Run

/-!
# Private memories

Memories that are numbered in the order they were made. One of them is in use: bytes are stored in it,
and copies are made of it. This is what address spaces are for: a store is seen in the memory it was
made in and in the copies that are made of it later, and nowhere else. So what a memory holds in the
end are the stores that were made while it was in use, over what it held at the beginning.
-/

namespace ToeS.Lib

/-- The memories and the number of the one in use. There is nothing at an address that reads as
`none`. -/
structure Memories (α β : Type) where
  mems : List (α → Option β)
  cur : Nat

namespace Memories
variable {α β ε : Type}

inductive Call (α β : Type) where
  | copy
  | use (i : Nat)
  | store (a : α) (b : β)

/-- The memory with the number `i`. -/
def mem (M : Memories α β) (i : Nat) : α → Option β := M.mems.getD i fun _ => none

/-- A memory that there is. -/
lemma mem_of_lt {M : Memories α β} {i : Nat} (h : i < M.mems.length) : M.mem i = M.mems[i] := by
  rw [mem, List.getD_eq_getElem?_getD, List.getElem?_eq_getElem h]
  rfl

section
variable [DecidableEq α]

/-- Stores `b` at `a`. -/
def write (f : α → Option β) (p : α × β) : α → Option β := Function.update f p.1 (some p.2)

/-- One call. A store to an address where there is nothing is a fault. -/
def step (fault : ε) (M : Memories α β) : Call α β → Except ε (Memories α β)
  | .copy => .ok { M with mems := M.mems ++ [M.mem M.cur] }
  | .use i => .ok { M with cur := i }
  | .store a b =>
    if (M.mem M.cur a).isNone then .error fault
    else .ok { M with mems := M.mems.set M.cur (write (M.mem M.cur) (a, b)) }

/-- The stores that are made in the memory `i`, when `cur` is in use at the beginning. -/
def stores (i : Nat) : Nat → List (Call α β) → List (α × β)
  | _, [] => []
  | cur, .copy :: l => stores i cur l
  | _, .use j :: l => stores i j l
  | cur, .store a b :: l => if cur = i then (a, b) :: stores i cur l else stores i cur l

variable {fault : ε} {M M' : Memories α β} {l : List (Call α β)} {i : Nat}

/-- What a memory holds after a run are the stores that were made in it. -/
theorem mem_of_run (h : exec (step fault) M l = .ok M') (hi : i < M.mems.length) :
    M'.mem i = (stores i M.cur l).foldl write (M.mem i) := by
  induction l generalizing M with
  | nil =>
    cases h
    rfl
  | cons c l ih =>
    obtain ⟨M₁, h₁, h⟩ := exec_cons_ok.mp h
    cases c with
    | copy =>
      cases h₁
      have hlen : i < (M.mems ++ [M.mem M.cur]).length := by
        rw [List.length_append]
        exact hi.trans_le (Nat.le_add_right ..)
      rw [ih h hlen, mem_of_lt hlen, mem_of_lt hi, List.getElem_append_left hi]
      rfl
    | use j =>
      cases h₁
      exact ih h hi
    | store a b =>
      rw [step] at h₁
      split at h₁
      · cases h₁
      · cases h₁
        have hlen : i < (M.mems.set M.cur (write (M.mem M.cur) (a, b))).length := by
          rwa [List.length_set]
        rw [ih h hlen, mem_of_lt hlen, List.getElem_set]
        by_cases hc : M.cur = i
        · rw [if_pos hc, stores, if_pos hc, hc]
          rfl
        · rw [if_neg hc, stores, if_neg hc, mem_of_lt hi]

end

end Memories

end ToeS.Lib
