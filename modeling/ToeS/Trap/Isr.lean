import ToeS.Trap.Irq

/-!
# Exceptions

Model of the macros `isr_noerr` and `isr_err`, of `isr_common` of `kern/asm/int.S` and of `isr_handler`
of `kern/x86/int.c`. For some vectors the processor pushes an error code after `eip`; the stub has to
push a word in its place for the other ones. The stub of the alignment check pushes one more.
-/

namespace ToeS.Trap
open Lib Lib.X86

/-- The vectors, among the first 20, for which the processor pushes an error code. -/
def hasErrCode (v : Fin 20) : Bool := v = 8 ∨ 10 ≤ v ∧ v ≤ 14 ∨ v = 17

/-- The processor raises an exception. -/
def exception (m : Machine) (v : Fin 20) (err : Word) : Machine :=
  if hasErrCode v then (interrupt m).push err else interrupt m

/-- The error code of the processor, or 0. -/
def errCode (v : Fin 20) (err : Word) : Word := if hasErrCode v then err else 0

/-- `isr_common` up to the handler. -/
def isrCommon (ret : Word) : List Instr := commonEntry .ds .es .fs .gs ret

/-- The macro `isr_noerr`. -/
def isrNoerr (idx : Fin 32) (ret : Word) : List Instr :=
  .cli :: .pushI 0 :: .pushI (.ofNat 32 idx) :: isrCommon ret

/-- The macro `isr_err`. -/
def isrErr (idx : Fin 32) (ret : Word) : List Instr :=
  .cli :: .pushI (.ofNat 32 idx) :: isrCommon ret

/-- The vectors, among the first 32, whose stub is made by the macro `isr_err`. -/
def isrIsErr : Fin 32 → Bool :=
  ![false, false, false, false, false, false, false, false, true, false, true, true, true, true, true,
    false, false, false, false, false, false, false, false, false, false, false, false, false, false,
    false, false, false]

/-- The stub of the gate `idx`. -/
def isr (idx : Fin 32) (ret : Word) : List Instr :=
  if isrIsErr idx then isrErr idx ret else isrNoerr idx ret

/-- `trap_messages`. -/
def trapMessages : Fin 32 → String :=
  ![
    "Division by zero",
    "Debug",
    "Non-maskable interrupt",
    "Breakpoint",
    "Detected overflow",
    "Out-of-bounds",
    "Invalid opcode",
    "No coprocessor",
    "Double fault",
    "Coprocessor segment overrun",
    "Bad TSS",
    "Segment not present",
    "Stack fault",
    "General protection fault",
    "Page fault",
    "Unknown interrupt",
    "Coprocessor fault",
    "Alignment check",
    "Machine check",
    "Reserved",
    "Reserved",
    "Reserved",
    "Reserved",
    "Reserved",
    "Reserved",
    "Reserved",
    "Reserved",
    "Reserved",
    "Reserved",
    "Reserved",
    "Reserved",
    "Reserved"]

/-- What `isr_handler` does: it calls a handler, or prints the number and a message. -/
inductive Action where
  | call (handler : Word)
  | print (n : Nat) (msg : String)

/-- C `isr_handler`, for a vector below 32. -/
def isrHandler (handlers : Nat → Word) (r : Regs) : Action :=
  let n := r.intNo.toNat
  if handlers n ≠ 0 then .call (handlers n) else .print n (trapMessages (Fin.ofNat 32 n))

/-- The machine when `isr_handler` starts. -/
def isrEntered (m : Machine) (v : Fin 20) (err ret : Word) : Machine :=
  (exception m v err).exec (isr (v.castLE (by decide)) ret)

/-- The argument of `isr_handler`. -/
def isrArg (m : Machine) (v : Fin 20) (err ret : Word) : Word :=
  load (isrEntered m v err ret).mem ((isrEntered m v err ret).reg .esp + 4)

/-- What it points to. -/
def isrRegs (m : Machine) (v : Fin 20) (err ret : Word) : Regs :=
  Regs.at (isrEntered m v err ret).mem (isrArg m v err ret)

/-- `isr_handler` has returned, and the saved frame, up to the flags, is what it was. -/
structure IsrReturned (m : Machine) (v : Fin 20) (err ret : Word) (x : Machine) : Prop where
  esp : x.reg .esp = (isrEntered m v err ret).reg .esp + 4
  frame : ∀ k < 17, load x.mem (isrArg m v err ret + .ofNat 32 (4 * k)) =
    load (isrEntered m v err ret).mem (isrArg m v err ret + .ofNat 32 (4 * k))

/-- The exception `v` is decoded: the handler is told the vector, the error code and where the exception
came from, and `iret` finds that place on top of the stack. -/
structure Decoded (m : Machine) (v : Fin 20) (err ret : Word) : Prop where
  intNo : (isrRegs m v err ret).intNo = .ofNat 32 v
  errCode : (isrRegs m v err ret).errCode = errCode v err
  eip : (isrRegs m v err ret).eip = m.eip
  cs : (isrRegs m v err ret).cs = m.cs.setWidth 32
  eflags : (isrRegs m v err ret).eflags = m.eflags
  iret : ∀ x, IsrReturned m v err ret x →
    (x.exec commonExit).reg .esp = m.reg .esp - 12 ∧ (x.exec commonExit).top = m.eip

section
variable {m x : Machine} {v : Fin 20} {err ret : Word} {a b c d : SegReg}

/-! ## The stack pointer -/

/-- The entry code pushes 56 bytes. -/
lemma commonEntry_esp : (x.exec (commonEntry a b c d ret)).reg .esp = x.reg .esp - 56 := by
  obtain ⟨y, hy⟩ : ∃ y, y = (x.pushes [x.reg .eax, x.reg .ecx, x.reg .edx, x.reg .ebx, x.reg .esp,
    x.reg .ebp, x.reg .esi, x.reg .edi]).pushes [(x.seg a).setWidth 32, (x.seg b).setWidth 32,
    (x.seg c).setWidth 32, (x.seg d).setWidth 32] := ⟨_, rfl⟩
  have hesp : (x.exec (commonEntry a b c d ret)).reg .esp = y.reg .esp - 4 - 4 := by
    rw [hy]
    rfl
  rw [hesp, hy, Machine.pushes_esp, Machine.pushes_esp]
  simp only [List.length]
  grind

/-- The exit code drops 60 bytes. -/
lemma commonExit_esp : (x.exec commonExit).reg .esp = x.reg .esp + 60 := by
  have hrun : x.exec commonExit = ((((((((((((((x.drop 4).popS .gs).popS .fs).popS .es).popS .ds).popR
      .edi).popR .esi).popR .ebp).drop 4).popR .ebx).popR .edx).popR .ecx).popR .eax).drop 8) := by
    rfl
  rw [hrun]
  simp only [Machine.drop_reg, Machine.popR_reg, Machine.popS_reg, reduceCtorEq, if_true, if_false]
  grind

/-- The exit code writes nothing. -/
lemma commonExit_mem : (x.exec commonExit).mem = x.mem := rfl

/-! ## The vectors for which the macro is the right one -/

/-- Interrupts may be disabled before or after a push. -/
lemma push_cli {w : Word} {p : List Instr} :
    (x.push w).exec (.cli :: p) = x.exec (.cli :: .pushI w :: p) := rfl

/-- The processor and the stub together push an error code and the vector. -/
lemma isrEntered_eq (hv : v ≠ 17) : isrEntered m v err ret = (interrupt m).exec
    (.cli :: .pushI (errCode v err) :: .pushI (.ofNat 32 v) :: commonEntry .ds .es .fs .gs ret) := by
  have hmacro : isrIsErr (v.castLE (by decide)) = hasErrCode v := by
    revert v
    decide
  rw [isrEntered, exception, isr, errCode, hmacro]
  cases hasErrCode v with
  | true => exact push_cli
  | false => rfl

/-- The frame that `isr_common` makes. -/
lemma isr_frame (hv : v ≠ 17) (m : Machine) (err ret : Word) : isrArg m v err ret = m.reg .esp - 68 ∧
    (isrEntered m v err ret).reg .esp = m.reg .esp - 76 ∧
    WordsAt (isrEntered m v err ret).mem (isrArg m v err ret)
      (frame m .ds .es .fs .gs (.ofNat 32 v) (errCode v err)) := by
  obtain ⟨hesp, -, harg, hframe⟩ := exec_commonEntry (isrEntered_eq hv)
  rw [show (isrEntered m v err ret).reg .esp + 4 + 4 = isrArg m v err ret by
    rw [isrArg, harg, hesp]
    grind] at hframe
  exact ⟨harg, hesp, hframe⟩

/-- Every stub but one hands the handler what it should. -/
lemma decoded (hv : v ≠ 17) : Decoded m v err ret := by
  obtain ⟨harg, hesp, hframe⟩ := isr_frame hv m err ret
  have hregs := Regs.at_frame hframe
  refine ⟨?_, ?_, ?_, ?_, ?_, fun x hx => ?_⟩
  · rw [isrRegs, hregs]
  · rw [isrRegs, hregs]
  · rw [isrRegs, hregs]
  · rw [isrRegs, hregs]
  · rw [isrRegs, hregs]
  · have hiret : (x.exec commonExit).reg .esp = m.reg .esp - 12 := by
      rw [commonExit_esp, hx.esp, hesp]
      grind
    refine ⟨hiret, ?_⟩
    -- the word of `eip` is the fifteenth of the frame
    have hlen : 14 < (frame m .ds .es .fs .gs (.ofNat 32 v) (errCode v err)).length :=
      show 14 < 17 by decide
    have heip := (hx.frame 14 (by decide)).trans (wordsAt_iff.mp hframe 14 hlen)
    have hat : isrArg m v err ret + .ofNat 32 (4 * 14) = m.reg .esp - 12 := by
      rw [harg]
      grind
    rw [Machine.top, hiret, commonExit_mem, ← hat]
    exact heip

/-! ## The alignment check -/

/-- A stub without an error code pushes a zero. -/
lemma isrNoerr_exec {idx : Fin 32} : x.exec (isrNoerr idx ret) =
    ((x.step .cli).pushes [0, .ofNat 32 idx]).exec (isrCommon ret) := by
  rw [isrNoerr, Machine.exec_cons, Machine.exec_cons, Machine.exec_cons]
  congr 1

/-- The stub pushes two words, although the processor has pushed an error code. -/
lemma isrEntered_alignment : (isrEntered m 17 err ret).reg .esp = m.reg .esp - 80 := by
  have herr : hasErrCode 17 = true := by decide
  have hmacro : isrIsErr (Fin.castLE (by decide) (17 : Fin 20)) = false := by decide
  obtain ⟨x, hx⟩ : ∃ x, x = (interrupt m).push err := ⟨_, rfl⟩
  have hesp : x.reg .esp = m.reg .esp - 16 := by
    rw [hx, Machine.push_reg, if_pos rfl]
    show (m.pushes [m.eflags, m.cs.setWidth 32, m.eip]).reg .esp - 4 = _
    rw [Machine.pushes_esp]
    simp only [List.length]
    grind
  have hcli : (x.step .cli).reg .esp = x.reg .esp := rfl
  rw [isrEntered, exception, if_pos herr, ← hx, isr, hmacro, if_neg Bool.false_ne_true, isrNoerr_exec,
    isrCommon, commonEntry_esp, Machine.pushes_esp, hcli, hesp]
  simp only [List.length]
  grind

/-- One word too many is left on the stack. -/
lemma iret_alignment (hx : IsrReturned m 17 err ret x) :
    (x.exec commonExit).reg .esp = m.reg .esp - 16 := by
  rw [commonExit_esp, hx.esp, isrEntered_alignment]
  grind

/-- The stub of vector 17 pushes an error code too many. -/
lemma not_decoded : ¬ Decoded m 17 err ret := by
  intro h
  obtain ⟨x, hx⟩ : ∃ x, IsrReturned m 17 err ret x :=
    ⟨(isrEntered m 17 err ret).drop 4, by simp, fun _ _ => rfl⟩
  have h₁ := (h.iret x hx).1
  rw [iret_alignment hx] at h₁
  grind

/-- Every exception but the alignment check is decoded, whatever was interrupted. -/
theorem decoded_iff : Decoded m v err ret ↔ v ≠ 17 :=
  ⟨fun h e => not_decoded (e ▸ h), decoded⟩

/-- An alignment check in code at `0x1000` does not return there. -/
theorem not_decoded_alignment :
    ¬ Decoded ⟨fun _ => 0x9000, fun _ => 0x10, 0x08, 0x1000, 0x202, fun _ => 0⟩ 17 0 0 :=
  not_decoded

/-- `isr_handler` calls the handler for the vector, or prints its message. -/
theorem isrHandler_decoded (handlers : Nat → Word) (hv : v ≠ 17) :
    isrHandler handlers (isrRegs m v err ret) =
      if handlers v ≠ 0 then .call (handlers v)
      else .print v (trapMessages (v.castLE (by decide))) := by
  have hn : (isrRegs m v err ret).intNo.toNat = v.val := by
    rw [(decoded hv).intNo, BitVec.toNat_ofNat]
    omega
  have hcast : Fin.ofNat 32 v.val = v.castLE (by decide) := Fin.ext (Nat.mod_eq_of_lt (by omega))
  rw [isrHandler, hn, hcast]

end

end ToeS.Trap
