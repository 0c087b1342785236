import ToeS.Lib.X86

/-!
# Descriptor tables

The entries of the global and of the interrupt descriptor table as the processor reads them, and the
delivery of an interrupt through a 32-bit interrupt gate to code of the privilege level that is
interrupted. Everything else that an entry can be (a task gate, a trap gate, a gate to another privilege
level, one that is not present) is not delivered here.

An error code, where there is one, is pushed after that.
-/

namespace ToeS.Lib.X86

/-- The eight bytes of an entry. -/
abbrev Descriptor := BitVec 64

namespace Descriptor
variable (d : Descriptor)

def offset : Word := d.extractLsb' 48 16 ++ d.extractLsb' 0 16

def selector : BitVec 16 := d.extractLsb' 16 16

def base : Word := d.extractLsb' 56 8 ++ d.extractLsb' 32 8 ++ d.extractLsb' 16 16

/-- The 20 bits of the limit. -/
def limit20 : BitVec 20 := d.extractLsb' 48 4 ++ d.extractLsb' 0 16

/-- The flags of a segment, the granularity in front. -/
def flags : BitVec 4 := d.extractLsb' 52 4

/-- The last offset in the segment. With the granularity the limit is counted in pages. -/
def limit : Word := if d.flags.getLsbD 3 then d.limit20 ++ 0xFFF#12 else d.limit20.setWidth 32

/-- Present, privilege level, and the type with the flag for code and data in front. -/
def access : BitVec 8 := d.extractLsb' 40 8

def present : Bool := d.access.getLsbD 7

def dpl : BitVec 2 := d.access.extractLsb' 5 2

def kind : BitVec 5 := d.access.extractLsb' 0 5

/-- A 32-bit interrupt gate. -/
def IsGate : Prop := d.kind = 0xE ∧ d.present = true

/-- A code segment, not conforming. -/
def IsCode : Prop := d.kind.extractLsb' 2 3 = 6 ∧ d.present = true

/-- A data segment that grows up and can be written to. -/
def IsData : Prop := d.kind.extractLsb' 1 4 = 9 ∧ d.present = true

instance : Decidable d.IsGate := inferInstanceAs (Decidable (_ ∧ _))

instance : Decidable d.IsCode := inferInstanceAs (Decidable (_ ∧ _))

instance : Decidable d.IsData := inferInstanceAs (Decidable (_ ∧ _))

end Descriptor

section
variable {v w n k : Nat} {x : BitVec v} {y : BitVec w}

/-- Fields behind a piece of an entry. -/
lemma field_skip (k n : Nat) : (x ++ y).extractLsb' (w + k) n = x.extractLsb' k n := by
  rw [BitVec.extractLsb'_append_eq_of_le (Nat.le_add_right w k), Nat.add_sub_cancel_left]

/-- A part of a number that is cut out by a shift and a mask. -/
lemma field_mask (k : Nat) {m : BitVec v} (h : m = (BitVec.allOnes n).setWidth v) :
    ((x >>> k) &&& m).setWidth n = x.extractLsb' k n := by
  subst h
  ext i hi
  simp only [BitVec.getElem_setWidth, BitVec.getLsbD_and, BitVec.getLsbD_ushiftRight,
    BitVec.getElem_extractLsb', BitVec.getLsbD_setWidth, BitVec.getLsbD_allOnes, hi, decide_true,
    Bool.and_true]
  by_cases hv : i < v
  · simp [hv]
  · simp [hv, BitVec.getLsbD_of_ge x (k + i) (by omega)]

/-- Without a shift. -/
lemma field_low {m : BitVec v} (h : m = (BitVec.allOnes n).setWidth v) :
    (x &&& m).setWidth n = x.extractLsb' 0 n := by
  rw [← field_mask 0 h, BitVec.ushiftRight_zero]

end

/-- The tables and their limits, by the indices of the entries. -/
structure Tables where
  gdt : Nat → Descriptor
  gdtLimit : Nat
  idt : Nat → Descriptor
  idtLimit : Nat

/-- The flags that an interrupt gate clears: `TF`, `IF`, `NT`, `RF` and `VM`. -/
def interruptMask : Word := 0x34300

/-- The code segment that a selector for the global table names, if code of the privilege level `cpl`
can go there. -/
def Tables.code (t : Tables) (sel : BitVec 16) (cpl : BitVec 2) : Option Descriptor :=
  let i := sel.toNat / 8
  if i ≠ 0 ∧ sel.getLsbD 2 = false ∧ 8 * i + 7 ≤ t.gdtLimit ∧ (t.gdt i).IsCode ∧ (t.gdt i).dpl = cpl then
    some (t.gdt i)
  else none

/-- The interrupt `v` is taken. -/
def Tables.deliver (t : Tables) (v : Nat) (m : Machine) : Option Machine :=
  let gate := t.idt v
  let cpl := m.cs.setWidth 2
  if 8 * v + 7 ≤ t.idtLimit ∧ gate.IsGate then
    match t.code gate.selector cpl with
    | some seg =>
      if gate.offset ≤ seg.limit then
        some { m.pushes [m.eflags, m.cs.setWidth 32, m.eip] with
          cs := gate.selector.extractLsb' 2 14 ++ cpl
          eip := seg.base + gate.offset
          eflags := m.eflags &&& ~~~interruptMask }
      else none
    | none => none
  else none

/-! ## Code that does not jump -/

section
variable {m : Machine} {e : Word} {i : Instr} {p : List Instr}

namespace Machine

/-- Execution goes on at `e`. -/
def goto (m : Machine) (e : Word) : Machine := { m with eip := e }

/-- A jump leaves memory. -/
@[simp] lemma goto_mem : (m.goto e).mem = m.mem := rfl

/-- Pushes do not depend on where the code is. -/
lemma pushes_goto {vs : List Word} : (m.goto e).pushes vs = (m.pushes vs).goto e := by
  induction vs generalizing m with
  | nil => rfl
  | cons v vs ih => exact ih (m := m.push v)

/-- A pop does not depend on where the code is. -/
lemma popR_goto {r : Reg} : (m.goto e).popR r = (m.popR r).goto e := rfl

/-- Dropping words does not depend on where the code is. -/
lemma drop_goto {n : Word} : (m.goto e).drop n = (m.drop n).goto e := rfl

/-- The instruction pointer changes nothing else. -/
lemma step_goto (h : i ≠ .ret ∧ i ≠ .iret) : (m.goto e).step i = (m.step i).goto e := by
  cases i with
  | ret => exact absurd rfl h.1
  | iret => exact absurd rfl h.2
  | pusha => exact pushes_goto
  | popa => simp only [step, popR_goto, drop_goto]
  | _ => rfl

/-- A program without returns runs the same from anywhere. -/
lemma exec_goto (h : ∀ i ∈ p, i ≠ .ret ∧ i ≠ .iret) : (m.goto e).exec p = (m.exec p).goto e := by
  induction p generalizing m with
  | nil => rfl
  | cons i p ih =>
    rw [exec_cons, exec_cons, step_goto (h i List.mem_cons_self),
      ih fun j hj => h j (List.mem_cons_of_mem _ hj)]

end Machine

end

end ToeS.Lib.X86
