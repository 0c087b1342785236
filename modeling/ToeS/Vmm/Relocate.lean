import ToeS.Basic
import ToeS.Lib.Chain
import ToeS.Lib.Run

/-!
# Stack relocation

Model of `relocate_stack` of `kern/mm/vmm.c` over the memory that is mapped: the boot stack is copied
to its new place, and every word that points into the old stack is moved with it. `stackBottom` and
`stackTop` stand for the addresses of the two symbols of `boot.S`. The parameter `size` is not used by
the code. The result is the memory and the new `esp` and `ebp`.

`Relocated` says what the copy is to be, word by word, and what follows for the chains of saved frame
pointers.
-/

namespace ToeS.Vmm
open Lib

/-- The loop of `relocate_stack` over the words of the copy, from `i` on. -/
def relocateLoop (stackBottom stackTop offset newTop : Nat) : Nat → Nat → Mem → Except Fault Mem
  | 0, _, _ => .error .diverges
  | n + 1, i, m =>
    if i < newTop then
      let m := if readWord m i < stackTop ∧ readWord m i > stackBottom then
        writeWord m i (u32 (readWord m i + offset)) else m
      relocateLoop stackBottom stackTop offset newTop n (u32 (i + 4)) m
    else .ok m

/-- C `relocate_stack`. -/
def relocateStack (stackBottom stackTop bottom _size oldEsp oldEbp : Nat) (m : Mem) :
    Except Fault (Mem × Nat × Nat) := do
  let stackSz := sub32 stackTop stackBottom
  let offset := sub32 bottom stackBottom
  let m := memcpy m stackBottom bottom stackSz
  let newTop := u32 (bottom + stackSz)
  let m ← relocateLoop stackBottom stackTop offset newTop chainFuel bottom m
  let newEsp := u32 (oldEsp + offset)
  let newEbp := u32 (oldEbp + offset)
  return (m, newEsp, newEbp)

/-! ## What the copy is to be -/

/-- The size of the stack that `boot.S` reserves. -/
def stackSz : Nat := 0x4000

/-- The value points strictly into the stack at `sb`. -/
def Inside (sb v : Nat) : Prop := sb < v ∧ v < sb + stackSz

instance (sb v : Nat) : Decidable (Inside sb v) := inferInstanceAs (Decidable (_ ∧ _))

/-- The address of the copy of what is at `p`. -/
def shift (sb bottom p : Nat) : Nat := u32 (p + sub32 bottom sb)

/-- No address of the machine, the end of no chain. -/
def noAddr : Nat := 4294967296

/-- From `ebp` on the saved frame pointers in the stack at `sb` lead through the frames `fs` and then
to `e`, which does not point into the stack, and nor does a return address. -/
structure CallChain (sb : Nat) (m : Mem) (ebp : Nat) (fs : List Nat) (e : Nat) : Prop where
  walk : Seg noAddr (readWord m) ebp fs e
  frame : ∀ p ∈ fs, sb < p ∧ p + 8 ≤ sb + stackSz ∧ p % 4 = 0
  ret : ∀ p ∈ fs, ¬ Inside sb (readWord m (p + 4))
  ends : ¬ Inside sb e

/-- The memory `m'` has a copy at `bottom` of the stack that `m` has at `sb`. -/
structure Relocated (sb bottom : Nat) (m m' : Mem) : Prop where
  word : ∀ k < 4096, readWord m' (bottom + 4 * k) =
    if Inside sb (readWord m (sb + 4 * k)) then u32 (readWord m (sb + 4 * k) + sub32 bottom sb)
    else readWord m (sb + 4 * k)
  /-- A chain of frames is the same chain in the copy, with the same return addresses and the same
  end. -/
  chain : ∀ ebp fs e, fs ≠ [] → CallChain sb m ebp fs e →
    Seg noAddr (readWord m') (shift sb bottom ebp) (fs.map (shift sb bottom)) e ∧
      ∀ p ∈ fs, readWord m' (shift sb bottom p + 4) = readWord m (p + 4)

section
variable {sb bottom : Nat} {m m' : Mem}

/-- What is read at the copy of an address. -/
lemma readWord_shift {p k : Nat} (hp : sb ≤ p) :
    readWord m (shift sb bottom p + k) = readWord m (bottom + (p - sb) + k) := by
  have hu : shift sb bottom p = u32 (bottom + (p - sb)) := by
    unfold shift sub32 u32
    omega
  rw [hu, readWord_u32]

/-- The chains follow from the words: a saved frame pointer moves, return addresses and the end of
the chain do not. -/
lemma Relocated.of_word (hsb : sb % 4096 = 0)
    (hword : ∀ k < 4096, readWord m' (bottom + 4 * k) =
      if Inside sb (readWord m (sb + 4 * k)) then u32 (readWord m (sb + 4 * k) + sub32 bottom sb)
      else readWord m (sb + 4 * k)) : Relocated sb bottom m m' := by
  have hsz : stackSz = 16384 := rfl
  -- a word of the stack and its copy
  have hcopy : ∀ p k, k % 4 = 0 → sb < p → p + k + 4 ≤ sb + stackSz → p % 4 = 0 →
      readWord m' (shift sb bottom p + k) =
        if Inside sb (readWord m (p + k)) then shift sb bottom (readWord m (p + k))
        else readWord m (p + k) := by
    intro p k hk hlo hhi hp
    have hw := hword ((p - sb + k) / 4) (by omega)
    rw [show sb + 4 * ((p - sb + k) / 4) = p + k by omega,
      show bottom + 4 * ((p - sb + k) / 4) = bottom + (p - sb) + k by omega] at hw
    rw [readWord_shift hlo.le, hw]
    rfl
  refine ⟨hword, fun ebp fs e hne hc => ⟨?_, fun p hp => ?_⟩⟩
  · obtain ⟨hwalk, hframe, -, hends⟩ := hc
    have haddr : ∀ p, shift sb bottom p ≠ noAddr := fun p => (u32_lt _).ne
    induction fs generalizing ebp with
    | nil => exact absurd rfl hne
    | cons p fs ih =>
      obtain ⟨rfl, -, hwalk⟩ := hwalk
      obtain ⟨hlo, hhi, hal⟩ := hframe ebp (.head _)
      have hnext := hcopy ebp 0 rfl hlo (by omega) hal
      simp only [Nat.add_zero] at hnext
      refine ⟨rfl, haddr ebp, ?_⟩
      rw [hnext]
      cases fs with
      | nil =>
        obtain rfl : readWord m ebp = e := hwalk
        exact if_neg hends
      | cons q fs =>
        obtain ⟨hlo', hhi', -⟩ := hframe q (.tail _ (.head _))
        have hq : readWord m ebp = q := hwalk.1
        rw [if_pos (hq ▸ ⟨hlo', by omega⟩)]
        exact ih _ (by simp) hwalk fun p hp => hframe p (.tail _ hp)
  · obtain ⟨hlo, hhi, hal⟩ := hc.frame p hp
    rw [hcopy p 4 rfl hlo (by omega) hal, if_neg (hc.ret p hp)]

/-! ## The loop -/

/-- The loop while `n` words from `i` on are left. -/
lemma relocateLoop_spec (sb offset n i : Nat) {newTop fuel : Nat} (hi : i + 4 * n = newTop)
    (htop : newTop < 4294967296) (hfuel : n < fuel) :
    ∃ m', relocateLoop sb (sb + stackSz) offset newTop fuel i m = .ok m' ∧
      SameOff (Bytes i newTop) m m' ∧ ∀ k < n, readWord m' (i + 4 * k) =
        if Inside sb (readWord m (i + 4 * k)) then u32 (readWord m (i + 4 * k) + offset)
        else readWord m (i + 4 * k) := by
  induction n generalizing i m fuel with
  | zero =>
    obtain ⟨fuel, rfl⟩ := Nat.exists_eq_succ_of_ne_zero (by omega : fuel ≠ 0)
    exact ⟨m, by rw [relocateLoop, if_neg (by omega)], .refl _ _, fun k hk => by omega⟩
  | succ n ih =>
    obtain ⟨fuel, rfl⟩ := Nat.exists_eq_succ_of_ne_zero (by omega : fuel ≠ 0)
    obtain ⟨m₁, hm₁⟩ : ∃ m₁, m₁ = if readWord m i < sb + stackSz ∧ readWord m i > sb then
      writeWord m i (u32 (readWord m i + offset)) else m := ⟨_, rfl⟩
    have hword : readWord m₁ i =
        if Inside sb (readWord m i) then u32 (readWord m i + offset) else readWord m i := by
      rw [hm₁]
      by_cases hin : Inside sb (readWord m i)
      · rw [if_pos hin, if_pos hin.symm, readWord_writeWord (by omega) (u32_lt _)]
      · rw [if_neg hin, if_neg fun h => hin h.symm]
    have hoff : SameOff (Bytes i (i + 4)) m m₁ := by
      rw [hm₁]
      split
      · exact .writeWord (by omega)
      · exact .refl _ _
    have hnext : u32 (i + 4) = i + 4 := u32_eq (by omega)
    obtain ⟨m', hrun, hsame, hrest⟩ := ih (i := i + 4) (m := m₁) (by omega)
      (Nat.lt_of_succ_lt_succ hfuel)
    refine ⟨m', ?_, ?_, fun k hk => ?_⟩
    · rw [relocateLoop, if_pos (by omega), ← hm₁, hnext]
      exact hrun
    · refine (hoff.mono ?_).trans (hsame.mono ?_)
      all_goals
        intro x hx
        unfold Bytes at *
        omega
    · by_cases hk0 : k = 0
      · subst hk0
        rw [hsame.readWord (by omega) fun x hx hw => by unfold Bytes at hx hw; omega]
        exact hword
      · obtain ⟨j, rfl⟩ := Nat.exists_eq_succ_of_ne_zero hk0
        have hj := hrest j (by omega)
        rw [show i + 4 + 4 * j = i + 4 * (j + 1) by ring] at hj
        rw [hj, hoff.readWord (by omega) fun x hx hw => by unfold Bytes at hx hw; omega]

/-- A copy without the loop is right exactly when no word of the stack points into it. -/
lemma relocated_memcpy_iff (hsb : sb % 4096 = 0)
    (hdisj : ∀ x < stackSz, ∀ y < stackSz, u32 (sb + x) ≠ u32 (bottom + y)) :
    Relocated sb bottom m (memcpy m sb bottom stackSz) ↔
      ∀ k < 4096, ¬ Inside sb (readWord m (sb + 4 * k)) := by
  have hsz : stackSz = 16384 := rfl
  have hcopy : ∀ k < 4096, readWord (memcpy m sb bottom stackSz) (bottom + 4 * k) =
      readWord m (sb + 4 * k) := fun k hk => readWord_memcpy (by omega) hdisj (by omega)
  constructor
  · intro hr k hk hin
    have hw := hr.word k hk
    have hd := hdisj 0 (by omega) 0 (by omega)
    rw [hcopy k hk, if_pos hin] at hw
    have := readWord_lt m (sb + 4 * k)
    -- the word would move by nothing
    unfold u32 sub32 at hw
    unfold u32 at hd
    omega
  · intro hno
    exact .of_word hsb fun k hk => by rw [hcopy k hk, if_neg (hno k hk)]

/-- A copy that ends where the address space ends, or beyond, is not looked at by the loop. -/
lemma relocateStack_end {size esp ebp : Nat} (htop : sb + stackSz < 4294967296)
    (hb : bottom < 4294967296) (hend : 4294967296 ≤ bottom + stackSz) :
    relocateStack sb (sb + stackSz) bottom size esp ebp m =
      .ok (memcpy m sb bottom stackSz, shift sb bottom esp, shift sb bottom ebp) := by
  have hsz : stackSz = 16384 := rfl
  have hsub : sub32 (sb + stackSz) sb = stackSz := by
    rw [sub32_eq (by omega) htop]
    omega
  have hle : ¬ bottom < u32 (bottom + stackSz) := by
    unfold u32
    omega
  refine bind_ok.mpr ⟨_, ?_, rfl⟩
  rw [hsub, show chainFuel = 4294967295 + 1 from rfl, relocateLoop, if_neg hle]

/-- Moving the boot stack to 16 KiB that are disjoint from it makes a copy in which the words that
point into it are moved, and `esp` and `ebp` with them, exactly when the copy ends below the end of
the address space or there are no such words: the loop compares against the end modulo `2 ^ 32`. -/
theorem relocateStack_iff {size esp ebp : Nat} (hsb : sb % 4096 = 0)
    (htop : sb + stackSz < 4294967296) (hb : bottom < 4294967296)
    (hdisj : ∀ x < stackSz, ∀ y < stackSz, u32 (sb + x) ≠ u32 (bottom + y)) :
    (∃ m', relocateStack sb (sb + stackSz) bottom size esp ebp m =
        .ok (m', shift sb bottom esp, shift sb bottom ebp) ∧ Relocated sb bottom m m') ↔
      bottom + stackSz < 4294967296 ∨ ∀ k < 4096, ¬ Inside sb (readWord m (sb + 4 * k)) := by
  have hsz : stackSz = 16384 := rfl
  by_cases hlt : bottom + stackSz < 4294967296
  · refine ⟨fun _ => .inl hlt, fun _ => ?_⟩
    have hfuel : 4096 < chainFuel := by decide
    have hsub : sub32 (sb + stackSz) sb = stackSz := by
      rw [sub32_eq (by omega) htop]
      omega
    obtain ⟨m', hrun, -, hword⟩ := relocateLoop_spec (m := memcpy m sb bottom stackSz) sb
      (sub32 bottom sb) 4096 bottom rfl (by omega) hfuel
    refine ⟨m', bind_ok.mpr ⟨m', ?_, rfl⟩, .of_word hsb fun k hk => ?_⟩
    · rw [hsub, u32_eq hlt]
      exact hrun
    · rw [hword k hk, readWord_memcpy (by omega) hdisj (by omega)]
  · rw [relocateStack_end htop hb (by omega), ← relocated_memcpy_iff hsb hdisj]
    constructor
    · rintro ⟨m', he, hr⟩
      cases he
      exact .inr hr
    · rintro (h | hr)
      · exact absurd h hlt
      · exact ⟨_, rfl, hr⟩

end

/-- The boot stack with one frame, whose saved frame pointer is that of the frame above. -/
def oneFrame : Mem := writeWord (fun _ => 0) 0xC0113F00 0xC0113F40

/-- The two stacks of the example do not overlap. -/
lemma disjoint_bottom (bottom : Nat) (hb : bottom + stackSz ≤ 0xC0110000 ∨
    0xC0110000 + stackSz ≤ bottom ∧ bottom + stackSz ≤ 4294967296) :
    ∀ x < stackSz, ∀ y < stackSz, u32 (0xC0110000 + x) ≠ u32 (bottom + y) := by
  intro x hx y hy
  unfold u32
  unfold stackSz at *
  omega

/-- The move to the new stack below the kernel. -/
theorem relocateStack_iff_below :
    (∃ m', relocateStack 0xC0110000 (0xC0110000 + stackSz) 0xBFFFC000 0x4000 0xC0113EF0 0xC0113F00
        oneFrame = .ok (m', shift 0xC0110000 0xBFFFC000 0xC0113EF0,
          shift 0xC0110000 0xBFFFC000 0xC0113F00) ∧
      Relocated 0xC0110000 0xBFFFC000 oneFrame m') ↔
      0xBFFFC000 + stackSz < 4294967296 ∨
        ∀ k < 4096, ¬ Inside 0xC0110000 (readWord oneFrame (0xC0110000 + 4 * k)) :=
  relocateStack_iff (by decide) (by decide) (by decide) (disjoint_bottom _ (.inl (by decide)))

/-- The saved frame pointer is not moved when the copy is the end of the address space. -/
theorem not_relocated_end :
    (∀ x < stackSz, ∀ y < stackSz, u32 (0xC0110000 + x) ≠ u32 (0xFFFFC000 + y)) ∧
      ¬ ∃ r, relocateStack 0xC0110000 (0xC0110000 + stackSz) 0xFFFFC000 0x4000 0xC0113EF0 0xC0113F00
        oneFrame = .ok r ∧ Relocated 0xC0110000 0xFFFFC000 oneFrame r.1 := by
  have hdisj := disjoint_bottom 0xFFFFC000 (.inr (by decide))
  refine ⟨hdisj, ?_⟩
  rintro ⟨r, hrun, hr⟩
  rw [relocateStack_end (by decide) (by decide) (by decide)] at hrun
  cases hrun
  have hword : readWord oneFrame (0xC0110000 + 4 * 4032) = 0xC0113F40 :=
    readWord_writeWord (by decide) (by decide)
  refine (relocated_memcpy_iff (by decide) hdisj).mp hr 4032 (by decide) ?_
  rw [hword]
  decide

end ToeS.Vmm
