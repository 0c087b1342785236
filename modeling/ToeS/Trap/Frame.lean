import ToeS.Lib.X86

/-!
# The saved frame of an interrupt

What the processor does when an interrupt comes, `regs_t` of `kern/inc/x86.h`, and the code of
`kern/asm/int.S` around the call of the handler. The kernel has no task state segment and runs at one
privilege level, so the processor stays on the stack it is on and pushes three words; `useresp` and
`ss` are whatever lies above them.

The two common stubs differ in the segment registers that they push and in the handler, so there is
one definition with the four registers as parameters. The return address of the call is a parameter,
too.
-/

namespace ToeS.Trap
open Lib Lib.X86

/-- `regs_t`. -/
structure Regs where
  gs : Word
  fs : Word
  es : Word
  ds : Word
  edi : Word
  esi : Word
  ebp : Word
  esp : Word
  ebx : Word
  edx : Word
  ecx : Word
  eax : Word
  intNo : Word
  errCode : Word
  eip : Word
  cs : Word
  eflags : Word
  useresp : Word
  ss : Word

/-- The structure at `p`. -/
def Regs.at (m : Mem) (p : Word) : Regs :=
  ⟨load m p, load m (p + 4), load m (p + 8), load m (p + 12), load m (p + 16), load m (p + 20),
    load m (p + 24), load m (p + 28), load m (p + 32), load m (p + 36), load m (p + 40),
    load m (p + 44), load m (p + 48), load m (p + 52), load m (p + 56), load m (p + 60),
    load m (p + 64), load m (p + 68), load m (p + 72)⟩

/-- The flags that an interrupt gate clears: `TF`, `IF`, `NT`, `RF` and `VM`. -/
def gateFlags : Word := 0x34300

/-- The processor takes an interrupt through a gate with the selector `0x08`. -/
def interrupt (m : Machine) : Machine :=
  { m.pushes [m.eflags, m.cs.setWidth 32, m.eip] with
    cs := 0x08, eflags := m.eflags &&& ~~~gateFlags }

/-- The common stub up to the handler, which pushes the segment registers `a` to `d`. -/
def commonEntry (a b c d : SegReg) (ret : Word) : List Instr := [
  .pusha,
  .pushS a,
  .pushS b,
  .pushS c,
  .pushS d,
  .movIAx 0x10,
  .movAxS .ds,
  .movAxS .es,
  .movAxS .fs,
  .movAxS .gs,
  .cld,
  .pushR .esp,
  .call ret]

/-- The common stub from the return of the handler up to the `iret`. -/
def commonExit : List Instr := [
  .addI 4 .esp,
  .popS .gs,
  .popS .fs,
  .popS .es,
  .popS .ds,
  .popa,
  .addI 8 .esp]

/-- The words from the segment registers to the flags, for the pushed segment registers `a` to `d`, the
error code and the vector. -/
def frame (m : Machine) (a b c d : SegReg) (intNo errCode : Word) : List Word :=
  [(m.seg d).setWidth 32, (m.seg c).setWidth 32, (m.seg b).setWidth 32, (m.seg a).setWidth 32,
    m.reg .edi, m.reg .esi, m.reg .ebp, m.reg .esp - 20, m.reg .ebx, m.reg .edx, m.reg .ecx,
    m.reg .eax, intNo, errCode, m.eip, m.cs.setWidth 32, m.eflags]

section
variable {m : Machine} {a b c d : SegReg} {intNo errCode ret p : Word}

/-- The stub has pushed the error code and the vector. -/
lemma exec_pushed {m₁ : Machine}
    (h : m₁ = (interrupt m).exec [.cli, .pushI errCode, .pushI intNo]) :
    m₁.Stack [intNo, errCode, m.eip, m.cs.setWidth 32, m.eflags] ∧
      m₁.reg .esp = m.reg .esp - 20 ∧ (∀ r, r ≠ .esp → m₁.reg r = m.reg r) ∧ m₁.seg = m.seg := by
  obtain ⟨m₀, hm₀⟩ : ∃ m₀, m₀ = m.pushes [m.eflags, m.cs.setWidth 32, m.eip] := ⟨_, rfl⟩
  have hs₀ : m₀.Stack [m.eip, m.cs.setWidth 32, m.eflags] := by
    rw [hm₀]
    exact Machine.Stack.nil.pushes (by simp)
  have hreg₀ : ∀ r, r ≠ .esp → m₀.reg r = m.reg r := fun r hr => by
    rw [hm₀, Machine.pushes_reg hr]
  have hesp₀ : m₀.reg .esp = m.reg .esp - 12 := by
    rw [hm₀, Machine.pushes_esp]
    rfl
  have hseg₀ : m₀.seg = m.seg := by rw [hm₀, Machine.pushes_seg]
  obtain ⟨m', hm'⟩ : ∃ m', m' = (interrupt m).step .cli := ⟨_, rfl⟩
  have hreg' : m'.reg = m₀.reg := by
    rw [hm', hm₀]
    rfl
  have hmem' : m'.mem = m₀.mem := by
    rw [hm', hm₀]
    rfl
  have hseg' : m'.seg = m₀.seg := by
    rw [hm', hm₀]
    rfl
  have hrun : m₁ = m'.pushes [errCode, intNo] := by
    rw [h, hm']
    rfl
  refine ⟨?_, ?_, fun r hr => ?_, ?_⟩
  · rw [hrun]
    exact (hs₀.congr (congrFun hreg' _) hmem').pushes (by simp)
  · rw [hrun, Machine.pushes_esp, hreg', hesp₀]
    simp only [List.length]
    grind
  · rw [hrun, Machine.pushes_reg hr, hreg', hreg₀ r hr]
  · rw [hrun, Machine.pushes_seg, hseg', hseg₀]

/-- From the interrupt to the handler: its argument points to the frame. -/
lemma exec_commonEntry {h : Machine} (hrun : h =
    (interrupt m).exec (.cli :: .pushI errCode :: .pushI intNo :: commonEntry a b c d ret)) :
    h.reg .esp = m.reg .esp - 76 ∧
      h.Stack (ret :: (m.reg .esp - 68) :: frame m a b c d intNo errCode) := by
  obtain ⟨m₁, hm₁⟩ : ∃ m₁, m₁ = (interrupt m).exec [.cli, .pushI errCode, .pushI intNo] := ⟨_, rfl⟩
  obtain ⟨hs₁, hesp₁, hreg₁, hseg₁⟩ := exec_pushed hm₁
  -- the registers
  obtain ⟨m₂, hm₂⟩ : ∃ m₂, m₂ = m₁.step .pusha := ⟨_, rfl⟩
  have hpush₂ : m₂ = m₁.pushes [m₁.reg .eax, m₁.reg .ecx, m₁.reg .edx, m₁.reg .ebx, m₁.reg .esp,
    m₁.reg .ebp, m₁.reg .esi, m₁.reg .edi] := hm₂
  have hs₂ : m₂.Stack _ := hpush₂ ▸ hs₁.pushes (by simp)
  have hesp₂ : m₂.reg .esp = m.reg .esp - 52 := by
    rw [hpush₂, Machine.pushes_esp, hesp₁]
    simp only [List.length]
    grind
  have hseg₂ : m₂.seg = m.seg := by
    rw [hpush₂, Machine.pushes_seg, hseg₁]
  -- the segment registers
  obtain ⟨m₃, hm₃⟩ : ∃ m₃, m₃ = m₂.exec [.pushS a, .pushS b, .pushS c, .pushS d] := ⟨_, rfl⟩
  have hpush₃ : m₃ = m₂.pushes [(m₂.seg a).setWidth 32, (m₂.seg b).setWidth 32,
    (m₂.seg c).setWidth 32, (m₂.seg d).setWidth 32] := hm₃
  have hs₃ : m₃.Stack _ := hpush₃ ▸ hs₂.pushes (by simp)
  have hesp₃ : m₃.reg .esp = m.reg .esp - 68 := by
    rw [hpush₃, Machine.pushes_esp, hesp₂]
    simp only [List.length]
    grind
  -- the selectors of the kernel
  obtain ⟨m₄, hm₄⟩ : ∃ m₄, m₄ = m₃.exec [.movIAx 0x10, .movAxS .ds, .movAxS .es, .movAxS .fs,
    .movAxS .gs, .cld] := ⟨_, rfl⟩
  have hs₄ : m₄.Stack _ := hs₃.congr (by rw [hm₄]; rfl) (by rw [hm₄]; rfl)
  have hesp₄ : m₄.reg .esp = m.reg .esp - 68 := by
    rw [hm₄, ← hesp₃]
    rfl
  -- the argument and the call
  have hrun' : h = m₄.pushes [m₄.reg .esp, ret] := by
    rw [hrun, hm₄, hm₃, hm₂, hm₁]
    rfl
  have hs : h.Stack _ := hrun' ▸ hs₄.pushes (by simp)
  rw [hesp₄] at hs
  refine ⟨?_, ?_⟩
  · rw [hrun', Machine.pushes_esp, hesp₄]
    simp only [List.length]
    grind
  · have hesp : m.reg .esp - 20 = m₁.reg .esp := hesp₁.symm
    rw [frame, hesp, ← hseg₂, ← hreg₁ .edi nofun, ← hreg₁ .esi nofun, ← hreg₁ .ebp nofun,
      ← hreg₁ .ebx nofun, ← hreg₁ .edx nofun, ← hreg₁ .ecx nofun, ← hreg₁ .eax nofun]
    exact hs

/-- What the handler reads. -/
lemma Regs.at_frame {mem : Mem} (h : WordsAt mem p (frame m a b c d intNo errCode)) :
    Regs.at mem p = {
      gs := (m.seg d).setWidth 32, fs := (m.seg c).setWidth 32, es := (m.seg b).setWidth 32,
      ds := (m.seg a).setWidth 32, edi := m.reg .edi, esi := m.reg .esi, ebp := m.reg .ebp,
      esp := m.reg .esp - 20, ebx := m.reg .ebx, edx := m.reg .edx, ecx := m.reg .ecx,
      eax := m.reg .eax, intNo := intNo, errCode := errCode, eip := m.eip, cs := m.cs.setWidth 32,
      eflags := m.eflags, useresp := load mem (p + 68), ss := load mem (p + 72) } := by
  have hget : ∀ k, (hk : k < 17) → load mem (p + .ofNat 32 (4 * k)) =
    (frame m a b c d intNo errCode).get ⟨k, hk⟩ := wordsAt_iff.mp h
  simp only [Regs.at, Regs.mk.injEq, and_true]
  exact ⟨h.1, hget 1 (by decide), hget 2 (by decide), hget 3 (by decide), hget 4 (by decide),
    hget 5 (by decide), hget 6 (by decide), hget 7 (by decide), hget 8 (by decide),
    hget 9 (by decide), hget 10 (by decide), hget 11 (by decide), hget 12 (by decide),
    hget 13 (by decide), hget 14 (by decide), hget 15 (by decide), hget 16 (by decide)⟩

/-- The stub pops what the frame has. -/
lemma exec_commonExit {x y : Machine} (hrun : y = x.exec commonExit) (hesp : x.reg .esp + 4 = p)
    (hw : WordsAt x.mem p (frame m a b c d intNo errCode)) :
    (∀ r, r ≠ .esp → y.reg r = m.reg r) ∧ y.reg .esp = p + 56 ∧
      y.seg = fun s => match s with
        | .ds => m.seg a
        | .es => m.seg b
        | .fs => m.seg c
        | .gs => m.seg d := by
  obtain ⟨x₁, hx₁⟩ : ∃ x₁, x₁ = x.step (.addI 4 .esp) := ⟨_, rfl⟩
  have hesp₁ : x₁.reg .esp = p := by
    rw [hx₁, ← hesp]
    rfl
  have hs₁ : x₁.Stack (frame m a b c d intNo errCode) := by
    rw [Machine.Stack, hesp₁, hx₁]
    exact hw
  -- the segment registers
  have h₁ := hs₁.popS (s := .gs)
  have h₂ := h₁.popS (s := .fs)
  have h₃ := h₂.popS (s := .es)
  have h₄ := h₃.popS (s := .ds)
  obtain ⟨x₂, hx₂⟩ : ∃ x₂, x₂ = (((x₁.popS .gs).popS .fs).popS .es).popS .ds := ⟨_, rfl⟩
  rw [← hx₂] at h₄
  have hseg₂ : x₂.seg = fun s => match s with
      | .ds => m.seg a
      | .es => m.seg b
      | .fs => m.seg c
      | .gs => m.seg d := by
    funext s
    rw [hx₂]
    cases s <;> simp [hs₁.top, h₁.top, h₂.top, h₃.top]
  have hesp₂ : x₂.reg .esp = p + 16 := by
    rw [hx₂]
    simp only [Machine.popS_reg, if_true, hesp₁]
    grind
  -- the registers
  have g₁ := h₄.popR (r := .edi) nofun
  have g₂ := g₁.popR (r := .esi) nofun
  have g₃ := g₂.popR (r := .ebp) nofun
  have g₄ := g₃.drop
  have g₅ := g₄.popR (r := .ebx) nofun
  have g₆ := g₅.popR (r := .edx) nofun
  have g₇ := g₆.popR (r := .ecx) nofun
  have hrun' : y = ((((((((x₂.popR .edi).popR .esi).popR .ebp).drop 4).popR .ebx).popR .edx).popR
      .ecx).popR .eax).drop 8 := by
    rw [hrun, hx₂, hx₁]
    rfl
  refine ⟨fun r hr => ?_, ?_, ?_⟩
  · rw [hrun', Machine.drop_reg, if_neg hr]
    cases r with
    | esp => exact absurd rfl hr
    | edi => simpa using h₄.top
    | esi => simpa using g₁.top
    | ebp => simpa using g₂.top
    | ebx => simpa using g₄.top
    | edx => simpa using g₅.top
    | ecx => simpa using g₆.top
    | eax => simpa using g₇.top
  · rw [hrun']
    simp only [Machine.popR_reg, Machine.drop_reg, reduceCtorEq, if_true, if_false, hesp₂]
    grind
  · rw [hrun', ← hseg₂]
    rfl

end

end ToeS.Trap
