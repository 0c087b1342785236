import ToeS.Trap.Frame

/-!
# Hardware interrupts

Model of the macro `irq` and of `irq_common` of `kern/asm/int.S`. `irq_common` pushes `es` where `fs`
belongs, so the interrupted code gets `es` back in `fs`. `irq_handler` is any code that returns to the
stub and leaves the saved frame as it is.
-/

namespace ToeS.Trap
open Lib Lib.X86

/-- The second arguments of the macro `irq`, by the first ones. -/
def irqByte : Fin 16 → Word := ![32, 33, 34, 35, 36, 37, 38, 39, 40, 41, 42, 43, 44, 45, 46, 47]

/-- `irq_common` up to the handler. -/
def irqCommon (ret : Word) : List Instr := commonEntry .ds .es .es .gs ret

/-- The stub of the gate `32 + idx`. -/
def irq (idx : Fin 16) (ret : Word) : List Instr :=
  .cli :: .pushI 0x00 :: .pushI (irqByte idx) :: irqCommon ret

/-- The machine when `irq_handler` starts. -/
def irqEntered (m : Machine) (idx : Fin 16) (ret : Word) : Machine := (interrupt m).exec (irq idx ret)

/-- The argument of `irq_handler`. -/
def irqArg (m : Machine) (idx : Fin 16) (ret : Word) : Word :=
  load (irqEntered m idx ret).mem ((irqEntered m idx ret).reg .esp + 4)

/-- `irq_handler` has returned, and the saved frame, up to the flags, is what it was. -/
structure Returned (m : Machine) (idx : Fin 16) (ret : Word) (x : Machine) : Prop where
  esp : x.reg .esp = (irqEntered m idx ret).reg .esp + 4
  frame : ∀ k < 17, load x.mem (irqArg m idx ret + .ofNat 32 (4 * k)) =
    load (irqEntered m idx ret).mem (irqArg m idx ret + .ofNat 32 (4 * k))

/-- What the handler is to see: the interrupted registers. `esp` is what `pusha` stores, the value
before it, and above the flags is the stack that was interrupted. -/
def seen (m : Machine) (idx : Fin 16) (ret : Word) : Regs where
  gs := (m.seg .gs).setWidth 32
  fs := (m.seg .fs).setWidth 32
  es := (m.seg .es).setWidth 32
  ds := (m.seg .ds).setWidth 32
  edi := m.reg .edi
  esi := m.reg .esi
  ebp := m.reg .ebp
  esp := m.reg .esp - 20
  ebx := m.reg .ebx
  edx := m.reg .edx
  ecx := m.reg .ecx
  eax := m.reg .eax
  intNo := .ofNat 32 (32 + idx)
  errCode := 0
  eip := m.eip
  cs := m.cs.setWidth 32
  eflags := m.eflags
  useresp := load (irqEntered m idx ret).mem (m.reg .esp)
  ss := load (irqEntered m idx ret).mem (m.reg .esp + 4)

/-- The interrupt `32 + idx` is not noticed by the code that it interrupts: the handler sees its
registers, and when the stub comes to its `iret` they are what they were, and the stack pointer is
where the processor left it. -/
structure Transparent (m : Machine) (idx : Fin 16) (ret : Word) : Prop where
  seen : Regs.at (irqEntered m idx ret).mem (irqArg m idx ret) = seen m idx ret
  reg : ∀ x, Returned m idx ret x → ∀ r, r ≠ .esp → (x.exec commonExit).reg r = m.reg r
  esp : ∀ x, Returned m idx ret x → (x.exec commonExit).reg .esp = m.reg .esp - 12
  seg : ∀ x, Returned m idx ret x → (x.exec commonExit).seg = m.seg

section
variable {m x : Machine} {idx : Fin 16} {ret : Word}

/-- The frame that `irq_common` makes. -/
lemma irq_frame (m : Machine) (idx : Fin 16) (ret : Word) : irqArg m idx ret = m.reg .esp - 68 ∧
    (irqEntered m idx ret).reg .esp = m.reg .esp - 76 ∧
    WordsAt (irqEntered m idx ret).mem (irqArg m idx ret)
      (frame m .ds .es .es .gs (.ofNat 32 (32 + idx)) 0) := by
  have hbyte : irqByte idx = .ofNat 32 (32 + idx) := by
    revert idx
    decide
  obtain ⟨hesp, -, harg, hframe⟩ := exec_commonEntry (h := irqEntered m idx ret) rfl
  rw [show (irqEntered m idx ret).reg .esp + 4 + 4 = irqArg m idx ret by
    rw [irqArg, harg, hesp]
    grind, hbyte] at hframe
  exact ⟨harg, hesp, hframe⟩

/-- What the handler sees: `es` in the place of `fs`. -/
lemma irq_seen : Regs.at (irqEntered m idx ret).mem (irqArg m idx ret) =
    { seen m idx ret with fs := (m.seg .es).setWidth 32 } := by
  obtain ⟨harg, -, hframe⟩ := irq_frame m idx ret
  rw [Regs.at_frame hframe, harg, show m.reg .esp - 68 + 68 = m.reg .esp by grind,
    show m.reg .esp - 68 + 72 = m.reg .esp + 4 by grind]
  rfl

/-- What the interrupted code gets back: `es` in `fs`. -/
lemma irq_back (h : Returned m idx ret x) :
    (∀ r, r ≠ .esp → (x.exec commonExit).reg r = m.reg r) ∧
      (x.exec commonExit).reg .esp = m.reg .esp - 12 ∧
      (x.exec commonExit).seg = Function.update m.seg .fs (m.seg .es) := by
  obtain ⟨harg, hesp, hframe⟩ := irq_frame m idx ret
  have hw : WordsAt x.mem (irqArg m idx ret)
      (frame m .ds .es .es .gs (.ofNat 32 (32 + idx)) 0) :=
    wordsAt_iff.mpr fun k hk => (h.frame k hk).trans (wordsAt_iff.mp hframe k hk)
  obtain ⟨hreg, hesp', hseg⟩ := exec_commonExit rfl (by rw [h.esp, hesp, harg]; grind) hw
  refine ⟨hreg, by rw [hesp', harg]; grind, ?_⟩
  rw [hseg]
  funext s
  cases s <;> rfl

/-- A selector can be read off the word that is pushed for it. -/
lemma setWidth_inj {v w : BitVec 16} (h : v.setWidth 32 = w.setWidth 32) : v = w := by
  have h := congrArg (BitVec.setWidth 16) h
  simpa using h

/-- A handler is transparent only if `fs` and `es` were equal. -/
lemma Transparent.fs (h : Transparent m idx ret) : m.seg .fs = m.seg .es := by
  have hs := congrArg Regs.fs (irq_seen.symm.trans h.seen)
  exact (setWidth_inj hs).symm

/-- A hardware interrupt, whatever its vector, is transparent exactly for code that has the same
selector in `fs` and `es`. -/
theorem transparent_iff : Transparent m idx ret ↔ m.seg .fs = m.seg .es := by
  refine ⟨Transparent.fs, fun h => ⟨?_, fun x hx => (irq_back hx).1, fun x hx => (irq_back hx).2.1,
    fun x hx => ?_⟩⟩
  · rw [irq_seen, ← h]
    rfl
  · rw [(irq_back hx).2.2, ← h, Function.update_eq_self]

end

/-- A selector of its own in `fs` is lost. -/
theorem not_transparent_fs :
    ¬ Transparent ⟨fun _ => 0x1000, fun s => if s = .fs then 0x23 else 0x10, 0x08, 0, 0, fun _ => 0⟩
      0 0 := by
  intro h
  exact absurd h.fs (by decide)

end ToeS.Trap
