import Mathlib.Tactic

/-!
# Ledgers

A pool of resources `α`, some of them reserved for good, of which each holder of `ι` has at most
one. A `Ledger` records who holds what and which resources are used, and carries what an allocator
owes its clients: no resource has two holders, and exactly the reserved and the held ones are used,
so that nothing is handed out twice and nothing is lost. `take` and `release` build the next ledger.
-/

namespace ToeS.Lib

/-- Who holds what, and what is used. -/
structure Ledger (ι : Type) {α : Type} (reserved : Set α) where
  holder : ι → Option α
  used : Set α
  unique : ∀ {i j a}, holder i = some a → holder j = some a → i = j
  used_iff : ∀ {a}, a ∈ used ↔ a ∈ reserved ∨ ∃ i, holder i = some a
  fresh : ∀ {i a}, holder i = some a → a ∉ reserved

namespace Ledger

variable {ι α : Type} {reserved : Set α}

/-- Nothing is held. -/
def empty : Ledger ι reserved where
  holder := fun _ => none
  used := reserved
  unique := fun h => nomatch h
  used_iff := ⟨.inl, fun h => h.resolve_right fun ⟨_, h⟩ => nomatch h⟩
  fresh := fun h => nomatch h

variable [DecidableEq ι] (L : Ledger ι reserved)

/-- A holder with nothing takes an unused resource. -/
def take (i : ι) (a : α) (ha : a ∉ L.used) (hi : L.holder i = none) : Ledger ι reserved where
  holder := Function.update L.holder i (some a)
  used := insert a L.used
  unique := by
    intro j k b hj hk
    rw [Function.update_apply] at hj hk
    have hnot : ∀ {j}, L.holder j = some a → False := fun h => ha (L.used_iff.mpr (.inr ⟨_, h⟩))
    split at hj <;> split at hk
    · simp_all
    · cases hj
      exact (hnot hk).elim
    · cases hk
      exact (hnot hj).elim
    · exact L.unique hj hk
  used_iff := by
    intro b
    rw [Set.mem_insert_iff, L.used_iff]
    constructor
    · rintro (rfl | h | ⟨j, h⟩)
      · exact .inr ⟨i, Function.update_self ..⟩
      · exact .inl h
      · have hne : j ≠ i := by
          rintro rfl
          rw [hi] at h
          cases h
        exact .inr ⟨j, by rwa [Function.update_of_ne hne]⟩
    · rintro (h | ⟨j, h⟩)
      · exact .inr (.inl h)
      · rw [Function.update_apply] at h
        split at h
        · cases h
          exact .inl rfl
        · exact .inr (.inr ⟨j, h⟩)
  fresh := by
    intro j b h hr
    rw [Function.update_apply] at h
    split at h
    · cases h
      exact ha (L.used_iff.mpr (.inl hr))
    · exact L.fresh h hr

/-- A holder gives back what it has. -/
def release (i : ι) : Ledger ι reserved where
  holder := Function.update L.holder i none
  used := L.used \ {a | L.holder i = some a}
  unique := by
    intro j k b hj hk
    rw [Function.update_apply] at hj hk
    split at hj <;> split at hk
    · simp_all
    · cases hj
    · cases hk
    · exact L.unique hj hk
  used_iff := by
    intro b
    rw [Set.mem_sdiff, L.used_iff, Set.mem_ofPred_eq]
    constructor
    · rintro ⟨h | ⟨j, h⟩, hb⟩
      · exact .inl h
      · have hne : j ≠ i := fun e => hb (e ▸ h)
        exact .inr ⟨j, by rwa [Function.update_of_ne hne]⟩
    · rintro (h | ⟨j, h⟩)
      · exact ⟨.inl h, fun hb => L.fresh hb h⟩
      · rw [Function.update_apply] at h
        split at h
        · cases h
        · rename_i hne
          exact ⟨.inr ⟨j, h⟩, fun hb => hne (L.unique h hb)⟩
  fresh := by
    intro j b h
    rw [Function.update_apply] at h
    split at h
    · cases h
    · exact L.fresh h

end Ledger

end ToeS.Lib
