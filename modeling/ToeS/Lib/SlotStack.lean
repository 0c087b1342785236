import Mathlib.Tactic

/-!
# Stacks that push into new slots

A stack in an array that only grows: a push takes the next new slot, wherever the top is, and a pop
moves the top down by one slot; the lowest slot is never popped. Such a `SlotStack` is not a stack.
When a push follows a pop, the slots of what has been popped stay in between, and later pops come to
them.

`Covered` says of a sequence of calls that this does not happen: no pop goes below the elements that
were pushed one behind the other, or to the lowest slot. Under it the slots behave as a stack
(`Agrees.run_eq`), and where no element is pushed that is still on the stack, only under it
(`Stale.covered`).
-/

namespace ToeS.Lib

variable {α : Type}

/-- The calls of a stack. -/
inductive StackCall (α : Type) where
  | push (a : α)
  | pop
  deriving DecidableEq, Repr

/-- What the pops of a stack return; `none` when it is empty. -/
def stackRun (S : List α) : List (StackCall α) → List (Option α)
  | [] => []
  | .push a :: calls => stackRun (a :: S) calls
  | .pop :: calls => S.head? :: stackRun S.tail calls

/-- The elements that a sequence of calls pushes. -/
def pushes : List (StackCall α) → List α
  | [] => []
  | .push a :: calls => a :: pushes calls
  | .pop :: calls => pushes calls

/-- A stack returns what was on it or has been pushed. -/
lemma mem_of_stackRun {S : List α} {calls : List (StackCall α)} {a : α}
    (h : some a ∈ stackRun S calls) : a ∈ S ∨ a ∈ pushes calls := by
  induction calls generalizing S with
  | nil => cases h
  | cons call calls ih =>
    cases call with
    | push b =>
      rcases ih h with hm | hm
      · rcases List.mem_cons.mp hm with rfl | hm
        · exact .inr List.mem_cons_self
        · exact .inl hm
      · exact .inr (List.mem_cons_of_mem _ hm)
    | pop =>
      rcases List.mem_cons.mp h with hm | hm
      · exact .inl (List.mem_of_mem_head? hm.symm)
      · exact (ih hm).imp_left List.mem_of_mem_tail

/-- The slots that have been taken, and how many of them are not above the top. -/
structure SlotStack (α : Type) where
  slots : List α
  height : Nat
  le : height ≤ slots.length

namespace SlotStack

/-- A push takes a new slot. -/
def push (s : SlotStack α) (a : α) : SlotStack α :=
  ⟨s.slots ++ [a], s.slots.length + 1, by simp⟩

/-- The stack after a pop, which leaves the slots as they are. -/
def down (s : SlotStack α) : SlotStack α := ⟨s.slots, s.height - 1, by have := s.le; omega⟩

/-- A pop returns the slot at the top, unless that is the lowest one. -/
def pop (s : SlotStack α) : SlotStack α × Option α :=
  if s.height ≤ 1 then (s, none) else (s.down, s.slots[s.height - 1]?)

/-- What the pops of a sequence of calls return. -/
def run (s : SlotStack α) : List (StackCall α) → List (Option α)
  | [] => []
  | .push a :: calls => run (s.push a) calls
  | .pop :: calls => s.pop.2 :: run s.pop.1 calls

end SlotStack

/-- No pop goes below the `fresh` elements that lie one behind the other at the top, or to the lowest
slot: `reused` says that a push has followed a pop, so that the lowest slot is not among them, and
`popped` that there was a pop since the last push. -/
def Covered : Nat → Bool → Bool → List (StackCall α) → Prop
  | _, _, _, [] => True
  | fresh, reused, popped, .push _ :: calls =>
    if popped then Covered 1 true false calls else Covered (fresh + 1) reused false calls
  | fresh, reused, _, .pop :: calls =>
    (if reused then 0 else 1) < fresh ∧ Covered (fresh - 1) reused true calls

/-- Every push is of an element that is not on the stack. -/
def FreshPushes (S : List α) : List (StackCall α) → Prop
  | [] => True
  | .push a :: calls => a ∉ S ∧ FreshPushes (a :: S) calls
  | .pop :: calls => FreshPushes S.tail calls

/-- The slots and the stack agree on `live`, the elements that lie one behind the other at the top.
Above are slots that have been popped; the slots `below` are not those of the elements `lost` further
down in the stack. -/
structure SlotStack.Agrees (s : SlotStack α) (S : List α) (reused popped : Bool)
    (below live dead lost : List α) : Prop where
  slots : s.slots = below ++ live.reverse ++ dead
  height : s.height = below.length + live.length
  stack : S = live ++ lost
  dead : popped = true ↔ dead ≠ []
  below : reused = true ↔ below ≠ []

/-- What makes a pop below `live` go wrong: the stack is not empty, and the slot that such a pop comes
to does not hold the element that it asks for. -/
structure SlotStack.Stale (S : List α) (reused : Bool) (below live dead lost : List α) : Prop where
  nodup : S.Nodup
  first : reused = false → live ≠ []
  later : reused = true → lost ≠ [] ∧ ∀ x ∈ below.getLast?, x ∉ lost
  dead : ∀ x ∈ dead.getLast?, x ∉ S

namespace SlotStack
variable {s : SlotStack α}

/-- A push writes a new slot behind the others. -/
@[simp] lemma slots_push {a : α} : (s.push a).slots = s.slots ++ [a] := rfl

/-- After a push the stack is as high as there are slots. -/
@[simp] lemma height_push {a : α} : (s.push a).height = s.slots.length + 1 := rfl

/-- Going down leaves the slots. -/
@[simp] lemma slots_down : s.down.slots = s.slots := rfl

/-- Going down lowers the stack by one. -/
@[simp] lemma height_down : s.down.height = s.height - 1 := rfl

/-- Nothing is popped from the lowest slot. -/
lemma pop_low (h : s.height ≤ 1) : s.pop = (s, none) := by rw [pop, if_pos h]

/-- Above it the top slot is returned. -/
lemma pop_high (h : 1 < s.height) : s.pop = (s.down, s.slots[s.height - 1]?) := by
  rw [pop, if_neg (Nat.not_le.mpr h)]

/-- No pop changes the slots. -/
@[simp] lemma slots_pop : s.pop.1.slots = s.slots := by
  rw [pop]
  split_ifs <;> rfl

/-- A pop keeps the lowest slot. -/
lemma height_pop (h : 0 < s.height) : 0 < s.pop.1.height := by
  rw [pop]
  split_ifs with hlow
  · exact h
  · rw [height_down]
    omega

variable {S below live dead lost : List α} {reused popped : Bool} {a b : α}
  {calls : List (StackCall α)}

/-- The slots return what is in them or has been pushed. -/
lemma mem_of_run (h : some a ∈ s.run calls) : a ∈ s.slots ∨ a ∈ pushes calls := by
  induction calls generalizing s with
  | nil => cases h
  | cons call calls ih =>
    cases call with
    | push b =>
      rcases ih h with hm | hm
      · rcases List.mem_append.mp hm with hm | hm
        · exact .inl hm
        · exact .inr (List.mem_append_left (pushes calls) hm)
      · exact .inr (List.mem_cons_of_mem _ hm)
    | pop =>
      rcases List.mem_cons.mp h with hm | hm
      · rw [SlotStack.pop] at hm
        split_ifs at hm
        exact .inl (List.mem_of_getElem? hm.symm)
      · rcases ih hm with hm | hm
        · rw [slots_pop] at hm
          exact .inl hm
        · exact .inr hm

/-- A push behind a push. -/
lemma Agrees.push (h : Agrees s S reused false below live dead lost) :
    Agrees (s.push a) (a :: S) reused false below (a :: live) [] lost := by
  have hdead : dead = [] := by
    by_contra hne
    exact absurd (h.dead.mpr hne) (by decide)
  subst hdead
  refine ⟨?_, ?_, by rw [h.stack, List.cons_append], by simp, h.below⟩
  · simp [SlotStack.push, h.slots]
  · simp [SlotStack.push, h.slots]
    omega

/-- A push behind a pop starts anew: all slots are below it, and all of the stack. -/
lemma Agrees.push_popped (h : Agrees s S reused true below live dead lost) :
    Agrees (s.push a) (a :: S) true false s.slots [a] [] S := by
  have hdead : dead ≠ [] := h.dead.mp rfl
  refine ⟨by simp [SlotStack.push], rfl, rfl, by simp, ⟨fun _ => ?_, fun _ => rfl⟩⟩
  rw [h.slots]
  exact List.append_ne_nil_of_right_ne_nil _ hdead

/-- A pop of one of the elements that lie one behind the other. -/
lemma Agrees.pop (h : Agrees s S reused popped below (b :: live) dead lost)
    (hc : (if reused then 0 else 1) < live.length + 1) :
    s.pop.2 = some b ∧ Agrees s.pop.1 S.tail reused true below live (b :: dead) lost := by
  have hheight : ¬ s.height ≤ 1 := by
    have := h.height
    rw [List.length_cons] at this
    cases reused with
    | false =>
      simp only [Bool.false_eq_true, if_false] at hc
      omega
    | true =>
      have := List.length_pos_iff.mpr (h.below.mp rfl)
      omega
  have hslots : s.slots = (below ++ live.reverse) ++ b :: dead := by simp [h.slots]
  have htop : s.height - 1 = (below ++ live.reverse).length := by
    rw [h.height, List.length_append, List.length_reverse, List.length_cons]
    omega
  rw [SlotStack.pop, if_neg hheight]
  refine ⟨?_, ⟨by rw [SlotStack.down, hslots], ?_, by rw [h.stack]; rfl, by simp, h.below⟩⟩
  · show s.slots[s.height - 1]? = some b
    rw [htop, hslots, List.getElem?_append_right (le_refl _), Nat.sub_self, List.getElem?_cons_zero]
  · show s.height - 1 = _
    rw [htop, List.length_append, List.length_reverse]

/-- Under calls that are covered the slots behave as a stack. -/
theorem Agrees.run_eq (h : Agrees s S reused popped below live dead lost)
    (hc : Covered live.length reused popped calls) : s.run calls = stackRun S calls := by
  induction calls generalizing s S reused popped below live dead lost with
  | nil => rfl
  | cons call calls ih =>
    cases call with
    | push a =>
      cases popped with
      | false => exact ih h.push (by simpa [Covered] using hc)
      | true => exact ih h.push_popped (by simpa [Covered] using hc)
    | pop =>
      obtain ⟨hlt, hc⟩ := hc
      cases live with
      | nil => exact absurd hlt (by simp)
      | cons b live =>
        obtain ⟨hout, h'⟩ := h.pop hlt
        rw [SlotStack.run, stackRun, hout, ih h' hc, h.stack]
        rfl

/-! ## Calls that are not covered -/

/-- A new entry joins those that can be popped. -/
lemma Stale.push (h : Stale S reused below live [] lost) (ha : a ∉ S) :
    Stale (a :: S) reused below (a :: live) [] lost :=
  ⟨List.nodup_cons.mpr ⟨ha, h.nodup⟩, fun _ => List.cons_ne_nil a live, h.later, by simp⟩

/-- A push after pops leaves what was popped behind, and starts on top of the old slots. -/
lemma Stale.push_popped (hs : Stale S reused below live dead lost)
    (h : Agrees s S reused true below live dead lost) (ha : a ∉ S) :
    Stale (a :: S) true s.slots [a] [] S := by
  have hdead : dead ≠ [] := h.dead.mp rfl
  refine ⟨List.nodup_cons.mpr ⟨ha, hs.nodup⟩, by simp, fun _ => ⟨?_, fun x hx => ?_⟩, by simp⟩
  · rw [h.stack]
    cases reused with
    | false => exact List.append_ne_nil_of_left_ne_nil (hs.first rfl) _
    | true => exact List.append_ne_nil_of_right_ne_nil _ (hs.later rfl).1
  · -- the last slot is one that has been popped
    rw [h.slots, List.getLast?_append_of_ne_nil _ hdead] at hx
    exact hs.dead x hx

/-- A pop takes the last entry that is live. -/
lemma Stale.pop (h : Stale S reused below (b :: live) dead lost)
    (hS : S = b :: live ++ lost) (hc : (if reused then 0 else 1) < live.length + 1) :
    Stale S.tail reused below live (b :: dead) lost := by
  have hnd : (b :: (live ++ lost)).Nodup := by
    have := h.nodup
    rwa [hS] at this
  refine ⟨h.nodup.tail, fun hr => ?_, h.later, fun x hx => ?_⟩
  · rw [hr] at hc
    exact List.length_pos_iff.mp (by simpa using hc)
  · rw [hS, List.cons_append, List.tail_cons]
    cases dead with
    | nil =>
      obtain rfl : b = x := by simpa using hx
      exact (List.nodup_cons.mp hnd).1
    | cons c dead =>
      rw [List.getLast?_cons_cons] at hx
      have := h.dead x hx
      rw [hS] at this
      exact fun hm => this (List.mem_cons_of_mem b hm)

/-- A pop that is not covered does not return the top of the stack. -/
lemma Stale.pop_ne (hs : Stale S reused below live dead lost)
    (h : Agrees s S reused popped below live dead lost)
    (hc : live.length ≤ if reused then 0 else 1) : s.pop.2 ≠ S.head? := by
  have hheight := h.height
  cases reused with
  | false =>
    -- only the lowest slot is left
    obtain ⟨b, live, rfl⟩ := List.exists_cons_of_ne_nil (hs.first rfl)
    have hbelow : below = [] := by
      by_contra hne
      exact absurd (h.below.mpr hne) (by decide)
    have hlow : s.height ≤ 1 := by
      rw [hheight, hbelow]
      simpa using hc
    rw [SlotStack.pop, if_pos hlow, h.stack]
    simp
  | true =>
    -- the slot is one of those below
    obtain rfl : live = [] := List.length_eq_zero_iff.mp (by simpa using hc)
    obtain ⟨hlost, hlast⟩ := hs.later rfl
    obtain ⟨c, lost, rfl⟩ := List.exists_cons_of_ne_nil hlost
    rw [SlotStack.pop, h.stack]
    split_ifs with hlow
    · simp
    · have hbelow : below ≠ [] := h.below.mp rfl
      have hget : s.slots[s.height - 1]? = below.getLast? := by
        have hpos := List.length_pos_iff.mpr hbelow
        rw [h.slots, hheight, List.reverse_nil, List.append_nil, List.length_nil, Nat.add_zero,
          List.getElem?_append_left (by omega), List.getLast?_eq_getElem?]
      show s.slots[s.height - 1]? ≠ some c
      rw [hget]
      exact fun he => hlast c he List.mem_cons_self

/-- Calls under which the slots behave as a stack are covered, when every push is of an element that
is not on the stack. -/
theorem Stale.covered (hs : Stale S reused below live dead lost)
    (h : Agrees s S reused popped below live dead lost) (hf : FreshPushes S calls)
    (hr : s.run calls = stackRun S calls) : Covered live.length reused popped calls := by
  induction calls generalizing s S reused popped below live dead lost with
  | nil => trivial
  | cons call calls ih =>
    cases call with
    | push a =>
      obtain ⟨ha, hf⟩ := hf
      cases popped with
      | false =>
        obtain rfl : dead = [] := by
          by_contra hne
          exact absurd (h.dead.mpr hne) (by decide)
        simpa [Covered] using ih (hs.push ha) h.push hf hr
      | true => simpa [Covered] using ih (hs.push_popped h ha) h.push_popped hf hr
    | pop =>
      rw [SlotStack.run, stackRun] at hr
      obtain ⟨hout, hr⟩ := List.cons.inj hr
      by_cases hlt : (if reused then 0 else 1) < live.length
      · refine ⟨hlt, ?_⟩
        cases live with
        | nil => exact absurd hlt (by simp)
        | cons b live =>
          obtain ⟨-, h'⟩ := h.pop hlt
          exact ih (hs.pop h.stack hlt) h' hf hr
      · exact absurd hout (hs.pop_ne h (Nat.le_of_not_lt hlt))

/-- The stack of the elements that have been pushed, before any pop. -/
lemma agrees_of_pushes (F : List α) :
    Agrees ⟨F, F.length, le_refl _⟩ F.reverse false false [] F.reverse [] [] :=
  ⟨by simp, by simp, by simp, by simp, by simp⟩

/-- After pushes alone nothing is stale. -/
lemma stale_of_pushes {F : List α} (hF : F ≠ []) (hnd : F.Nodup) :
    Stale F.reverse false [] F.reverse [] [] :=
  ⟨List.nodup_reverse.mpr hnd, fun _ => by simpa using hF, by simp, by simp⟩

end SlotStack

end ToeS.Lib
