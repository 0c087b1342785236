import ToeS.Basic
import ToeS.Lib.Run
import ToeS.Lib.X86

/-!
# Paging with a TLB

The part of an x86 processor that code needs which turns paging on: the control registers, a page
directory in physical memory with page tables or pages of 4 MiB, and the TLB. Between two instructions
the processor may remember any translation that the directory makes, and forget any that it remembers.
A write to a control register or `invlpg` is the only way to be sure that one is gone.

Physical addresses are not extended. Rights are not looked at, and the bits that record accesses are left
out. The text of a program is apart from the memory; an instruction begins where its first byte is.

`Maps` says which pages the directory has and which the TLB may have. Where the two agree, so do all
translations.
-/

namespace ToeS.Lib.Mmu
open X86

/-- A translation of the addresses of a page. -/
structure Page where
  base : Nat
  size : Nat
  frame : Nat
  deriving DecidableEq

/-- The address is in the page. -/
def Page.Has (p : Page) (a : Nat) : Prop := p.base ≤ a ∧ a < p.base + p.size

instance (p : Page) (a : Nat) : Decidable (p.Has a) := inferInstanceAs (Decidable (_ ∧ _))

/-- Where an address of the page is in physical memory. -/
def Page.phys (p : Page) (a : Nat) : Nat := p.frame + (a - p.base)

/-- The control registers. -/
inductive Ctl where
  | cr0 | cr3 | cr4
  deriving DecidableEq

structure Cpu where
  reg : Reg → Word
  cr : Ctl → Word
  eip : Nat
  iflag : Bool
  mem : Mem
  tlb : List Page

/-- Instructions, with operands in the order of the AT&T syntax. -/
inductive Instr where
  | movI (imm : Word) (dst : Reg)
  | movRC (src : Reg) (dst : Ctl)
  | movCR (src : Ctl) (dst : Reg)
  | orI (imm : Word) (dst : Reg)
  | andI (imm : Word) (dst : Reg)
  | addI (imm : Word) (dst : Reg)
  | movIM (imm : Word) (a : Word)
  | invlpg (a : Word)
  | pushR (src : Reg)
  | jmpR (target : Reg)
  | call (target : Word)
  | cli

/-- The length of an arithmetic instruction on a register other than `eax`: a short constant is extended
with its sign. -/
def aluSize (imm : Word) : Nat := if (imm.setWidth 8).signExtend 32 = imm then 3 else 6

/-- The number of bytes of an instruction. -/
def Instr.size : Instr → Nat
  | .movI _ _ => 5
  | .movRC _ _ | .movCR _ _ => 3
  | .orI imm _ | .andI imm _ | .addI imm _ => aluSize imm
  | .movIM _ _ => 10
  | .invlpg _ => 7
  | .pushR _ | .cli => 1
  | .jmpR _ => 2
  | .call _ => 5

/-- Instructions, and where the first of them is in physical memory. -/
structure Text where
  base : Nat
  code : List Instr

/-- The number of bytes of a list of instructions. -/
def bytes (code : List Instr) : Nat := (code.map Instr.size).sum

/-- The instruction that begins at a distance from the first one. -/
def place : List Instr → Nat → Option Instr
  | [], _ => none
  | i :: l, k => if k = 0 then some i else if k < i.size then none else place l (k - i.size)

namespace Cpu

def setReg (c : Cpu) (r : Reg) (v : Word) : Cpu := { c with reg := Function.update c.reg r v }

/-- Moves `eip` past an instruction. -/
def advance (c : Cpu) (i : Instr) : Cpu := { c with eip := c.eip + i.size }

/-- The machine with an empty TLB. -/
def forget (c : Cpu) : Cpu := { c with tlb := [] }

/-- Bit 31 of `cr0`. -/
def paging (c : Cpu) : Bool := (c.cr .cr0).getLsbD 31

/-- The translation that the directory makes. -/
def walk (c : Cpu) (a : Nat) : Option Page :=
  let pde := readWord c.mem ((c.cr .cr3).toNat / 4096 * 4096 + 4 * (a / 4194304))
  if pde % 2 = 0 then none
  else if (c.cr .cr4).getLsbD 4 ∧ pde.testBit 7 then
    some ⟨a / 4194304 * 4194304, 4194304, pde / 4194304 * 4194304⟩
  else
    let pte := readWord c.mem (pde / 4096 * 4096 + 4 * (a / 4096 % 1024))
    if pte % 2 = 0 then none else some ⟨a / 4096 * 4096, 4096, pte / 4096 * 4096⟩

/-- The physical address of an address. -/
def translate (c : Cpu) (a : Nat) : Except Fault Nat :=
  if c.paging then
    match c.tlb.find? (·.Has a) with
    | some p => .ok (p.phys a)
    | none =>
      match c.walk a with
      | some p => .ok (p.phys a)
      | none => .error .pageFault
  else .ok a

/-- The word at an address. -/
def load (c : Cpu) (a : Nat) : Except Fault Nat := do
  let p ← c.translate a
  .ok (readWord c.mem p)

end Cpu

/-- The address that an instruction stores a word at. -/
def Instr.access (c : Cpu) : Instr → Option Word
  | .movIM _ a => some a
  | .pushR _ | .call _ => some (c.reg .esp - 4)
  | _ => none

/-- What an instruction does, when the next one is at `c.eip` and the word is stored at `p`. -/
def Instr.run (c : Cpu) (p : Nat) : Instr → Cpu
  | .movI imm dst => c.setReg dst imm
  | .movRC src dst => { c with cr := Function.update c.cr dst (c.reg src), tlb := [] }
  | .movCR src dst => c.setReg dst (c.cr src)
  | .orI imm dst => c.setReg dst (c.reg dst ||| imm)
  | .andI imm dst => c.setReg dst (c.reg dst &&& imm)
  | .addI imm dst => c.setReg dst (c.reg dst + imm)
  | .movIM imm _ => { c with mem := writeWord c.mem p imm.toNat }
  | .invlpg a => { c with tlb := c.tlb.filter (¬ ·.Has a.toNat) }
  | .pushR src =>
    { c.setReg .esp (c.reg .esp - 4) with mem := writeWord c.mem p (c.reg src).toNat }
  | .jmpR target => { c with eip := (c.reg target).toNat }
  | .call target =>
    { c.setReg .esp (c.reg .esp - 4) with mem := writeWord c.mem p c.eip, eip := target.toNat }
  | .cli => { c with iflag := false }

/-- The physical address of what an instruction stores, if it may. -/
def Cpu.target (text : Text) (c : Cpu) : Option Word → Except Fault Nat
  | none => .ok 0
  | some a => do
    let p ← c.translate a.toNat
    if p + 4 ≤ text.base ∨ text.base + bytes text.code ≤ p then .ok p else .error .clobbered

/-- The instruction at `eip`. -/
def Cpu.fetch (text : Text) (c : Cpu) : Except Fault Instr := do
  let p ← c.translate c.eip
  if text.base ≤ p then
    match place text.code (p - text.base) with
    | some i => .ok i
    | none => .error .outOfBounds
  else .error .outOfBounds

/-- Runs the instruction at `eip`. -/
def Cpu.step (text : Text) (c : Cpu) : Except Fault Cpu := do
  let i ← c.fetch text
  let c := c.advance i
  let p ← c.target text (i.access c)
  .ok (i.run c p)

/-- What can happen next. -/
inductive Action where
  | exec
  | fill (a : Word)
  | evict (k : Nat)
  deriving DecidableEq

def Cpu.act (text : Text) (c : Cpu) : Action → Except Fault Cpu
  | .exec => c.step text
  | .fill a =>
    if c.paging then
      match c.walk a.toNat with
      | some p => .ok { c with tlb := p :: c.tlb }
      | none => .ok c
    else .ok c
  | .evict k => .ok { c with tlb := c.tlb.eraseIdx k }

section
variable {text : Text} {code : List Instr} {c c' : Cpu} {i : Instr} {ds ts : List Page} {p : Page}
  {a n q : Nat}

/-! ## The text -/

/-- An instruction has a byte at least. -/
lemma Instr.size_pos (i : Instr) : 0 < i.size := by
  cases i <;> simp only [Instr.size, aluSize] <;> first | decide | (split <;> decide)

/-- The instruction behind the first `n` is the next one. -/
lemma place_bytes (h : code[n]? = some i) : place code (bytes (code.take n)) = some i := by
  induction code generalizing n with
  | nil => cases h
  | cons j code ih =>
    cases n with
    | zero =>
      cases h
      rfl
    | succ n =>
      have hpos := j.size_pos
      have hsum : bytes ((j :: code).take (n + 1)) = j.size + bytes (code.take n) := rfl
      rw [place, hsum, if_neg (by omega), if_neg (by omega), Nat.add_sub_cancel_left]
      exact ih h

/-- An instruction ends in the text. -/
lemma bytes_take_succ (h : code[n]? = some i) :
    bytes (code.take (n + 1)) = bytes (code.take n) + i.size := by
  rw [List.take_add_one, h]
  simp [bytes]

/-- The first instructions take no more than all of them. -/
lemma bytes_take_le : bytes (code.take n) ≤ bytes code := by
  have h : bytes code = bytes (code.take n) + bytes (code.drop n) := by
    rw [bytes, bytes, bytes, ← List.sum_append, ← List.map_append, List.take_append_drop]
  omega

/-- The instruction at `eip` is the one that stands where that is translated to. -/
lemma Cpu.fetch_of_place (hq : c.translate c.eip = .ok q) (hb : text.base ≤ q)
    (h : place text.code (q - text.base) = some i) : c.fetch text = .ok i := by
  rw [Cpu.fetch, hq, ok_bind, if_pos hb, h]

/-! ## Instructions -/

/-- An instruction does not look into the TLB. -/
lemma Instr.run_forget : (i.run c q).forget = (i.run c.forget q).forget := by
  cases i <;> rfl

/-- What an instruction accesses does not depend on the translation buffer. -/
@[simp] lemma Instr.access_forget : i.access c.forget = i.access c := by
  cases i <;> rfl

/-- What an instruction accesses does not depend on `eip`. -/
@[simp] lemma Instr.access_advance {j : Instr} : i.access (c.advance j) = i.access c := by
  cases i <;> rfl

/-- An instruction that stores nothing leaves the memory alone. -/
lemma Instr.run_mem (h : i.access c = none) : (i.run c q).mem = c.mem := by
  cases i with
  | movIM imm a => cases h
  | pushR src => cases h
  | call target => cases h
  | _ => rfl

/-- No instruction puts a translation into it. -/
lemma Instr.mem_tlb (h : p ∈ (i.run c q).tlb) : p ∈ c.tlb := by
  cases i with
  | movRC src dst => cases h
  | invlpg a => exact List.mem_of_mem_filter h
  | _ => exact h

/-- An instruction is found, and what it stores to. -/
lemma Cpu.step_ok : c.step text = .ok c' ↔ ∃ i p, c.fetch text = .ok i ∧
    (c.advance i).target text (i.access c) = .ok p ∧ c' = i.run (c.advance i) p := by
  constructor
  · intro h
    obtain ⟨i, hi, h⟩ := bind_ok.mp h
    obtain ⟨p, hp, h⟩ := bind_ok.mp h
    rw [Instr.access_advance] at hp
    exact ⟨i, p, hi, hp, (Except.ok.inj h).symm⟩
  · rintro ⟨i, p, hi, hp, rfl⟩
    refine bind_ok.mpr ⟨i, hi, bind_ok.mpr ⟨p, ?_, rfl⟩⟩
    rw [Instr.access_advance, hp]

/-! ## Translations -/

/-- The directory has the pages `ds`, and the TLB no others than `ts`. -/
structure Maps (ds ts : List Page) (c : Cpu) : Prop where
  on : c.paging = true
  walk : ∀ a < 4294967296, c.walk a = ds.find? (·.Has a)
  tlb : ∀ p ∈ c.tlb, p ∈ ts
  dir : ∀ p ∈ ds, p ∈ ts
  apart : ∀ p ∈ ts, ∀ q ∈ ts, ∀ a, p.Has a → q.Has a → p = q
  inside : ∀ p ∈ ts, p.base + p.size ≤ 4294967296

namespace Maps
variable (M : Maps ds ts c)
include M

/-- In pages that are apart a search finds the one that has the address. -/
lemma find_eq (hp : p ∈ ds) (ha : p.Has a) : ds.find? (·.Has a) = some p := by
  cases h : ds.find? (·.Has a) with
  | none => exact absurd ha (by simpa using List.find?_eq_none.mp h p hp)
  | some q =>
    have hq : q.Has a := by simpa using List.find?_some h
    rw [M.apart q (M.dir q (List.mem_of_find?_eq_some h)) p (M.dir p hp) a hq ha]

/-- An address of a page of the directory has one translation, wherever it is found. -/
lemma translate_page (hp : p ∈ ds) (ha : p.Has a) : c.translate a = .ok (p.phys a) := by
  have hlt : a < 4294967296 := ha.2.trans_le (M.inside p (M.dir p hp))
  rw [Cpu.translate, if_pos M.on]
  cases h : c.tlb.find? (·.Has a) with
  | some q =>
    have hq : q.Has a := by simpa using List.find?_some h
    rw [M.apart q (M.tlb q (List.mem_of_find?_eq_some h)) p (M.dir p hp) a hq ha]
  | none => simp only [M.walk a hlt, M.find_eq hp ha]

/-- An address of no page has none. -/
lemma translate_none (hlt : a < 4294967296) (h : ∀ p ∈ ts, ¬ p.Has a) :
    c.translate a = .error .pageFault := by
  have htlb : c.tlb.find? (·.Has a) = none :=
    List.find?_eq_none.mpr fun p hp => by simpa using h p (M.tlb p hp)
  have hdir : ds.find? (·.Has a) = none :=
    List.find?_eq_none.mpr fun p hp => by simpa using h p (M.dir p hp)
  rw [Cpu.translate, if_pos M.on]
  simp only [htlb, M.walk a hlt, hdir]

/-- A translation is one of a page. -/
lemma translate_ok (hlt : a < 4294967296) (h : c.translate a = .ok q) :
    ∃ p ∈ ts, p.Has a ∧ q = p.phys a := by
  by_cases hp : ∃ p ∈ ts, p.Has a
  · rw [Cpu.translate, if_pos M.on] at h
    cases htlb : c.tlb.find? (·.Has a) with
    | some p =>
      rw [htlb] at h
      cases h
      exact ⟨p, M.tlb p (List.mem_of_find?_eq_some htlb), by simpa using List.find?_some htlb, rfl⟩
    | none =>
      simp only [htlb, M.walk a hlt] at h
      cases hdir : ds.find? (·.Has a) with
      | some p =>
        rw [hdir] at h
        cases h
        exact ⟨p, M.dir p (List.mem_of_find?_eq_some hdir), by simpa using List.find?_some hdir, rfl⟩
      | none =>
        rw [hdir] at h
        cases h
  · have hnone := M.translate_none hlt fun p hp' ha => hp ⟨p, hp', ha⟩
    rw [hnone] at h
    cases h

end Maps

end

end ToeS.Lib.Mmu
