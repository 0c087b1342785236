import ToeS.Lib.Descriptor
import ToeS.Lib.Pic8259
import ToeS.Trap.Isr

/-!
# The descriptor tables

Model of `kern/x86/gdt.c` and of the table in `kern/x86/idt.c`. The structures are in memory as they are
declared, the first field in the lowest bytes. The addresses of the stubs come from the linker.

`tables_deliver` joins this to the model of the stubs, whose `interrupt` does not look at any table: it is
what the processor does with these.
-/

namespace ToeS.Trap
open Lib Lib.X86
open scoped Lib.Pic

/-! ## The global descriptor table -/

/-- `gdt_e`. -/
structure GdtE where
  limLow : BitVec 16
  baseLow : BitVec 16
  baseMid : BitVec 8
  access : BitVec 8
  gran : BitVec 8
  baseHigh : BitVec 8

/-- The bytes of an entry. -/
def GdtE.bits (e : GdtE) : Descriptor :=
  e.baseHigh ++ e.gran ++ e.access ++ e.baseMid ++ e.baseLow ++ e.limLow

/-- The entry that `gdt_set_entry` writes. -/
def gdtEntry (base lim : BitVec 64) (acc gran : BitVec 8) : GdtE where
  baseLow := (base &&& 0xFFFF).setWidth 16
  baseMid := ((base >>> 16) &&& 0xFF).setWidth 8
  baseHigh := ((base >>> 24) &&& 0xFF).setWidth 8
  limLow := (lim &&& 0xFFFF).setWidth 16
  gran := ((lim >>> 16) &&& 0x0f).setWidth 8 ||| (gran &&& 0xF0)
  access := acc

/-- C `gdt_set_entry`. -/
def gdtSetEntry (gdt : Nat → GdtE) (idx : Nat) (base lim : BitVec 64) (acc gran : BitVec 8) : Nat → GdtE :=
  Function.update gdt idx (gdtEntry base lim acc gran)

/-- `acc_bytes`. -/
def accBytes : List (BitVec 8) := [0x0, 0x9A, 0x92, 0xFA, 0xF2]

/-- The table that `gdt_init` makes, from whatever was there. -/
def gdtInit (gdt : Nat → GdtE) : Nat → GdtE :=
  [1, 2, 3, 4].foldl (fun gdt i => gdtSetEntry gdt i 0 0xFFFFFFFF (accBytes.getD i 0) 0xCF)
    (gdtSetEntry gdt 0 0 0 0 0)

/-! ## The interrupt descriptor table -/

/-- `idt_e`. -/
structure IdtE where
  low : BitVec 16
  sel : BitVec 16
  zero : BitVec 8
  flags : BitVec 8
  high : BitVec 16

/-- The bytes of an entry. -/
def IdtE.bits (e : IdtE) : Descriptor := e.high ++ e.flags ++ e.zero ++ e.sel ++ e.low

/-- The entry that `idt_add_entry` writes. -/
def idtEntry (add : Word) (sel : BitVec 16) (flags : BitVec 8) : IdtE where
  low := (add &&& 0xFFFF).setWidth 16
  high := ((add >>> 16) &&& 0xFFFF).setWidth 16
  sel := sel
  zero := 0
  flags := flags

/-- C `idt_add_entry`. -/
def idtAddEntry (entries : Nat → IdtE) (vec : Nat) (add : Word) (sel : BitVec 16) (flags : BitVec 8) :
    Nat → IdtE :=
  Function.update entries vec (idtEntry add sel flags)

/-- The stub that `idt_init` names for a vector: `isr0` to `isr31`, `irq0` to `irq15`. -/
def stub (isrs : Fin 32 → Word) (irqs : Fin 16 → Word) (v : Nat) : Word :=
  if h : v < 32 then isrs ⟨v, h⟩ else irqs (.ofNat 16 (v - 32))

/-- The table that `idt_init` makes. -/
def idtInit (isrs : Fin 32 → Word) (irqs : Fin 16 → Word) : Nat → IdtE :=
  (List.range 48).foldl (fun entries v => idtAddEntry entries v (stub isrs irqs v) 0x08 0x8E)
    fun _ => ⟨0, 0, 0, 0, 0⟩

/-- The tables after `gdt_init` and `idt_init`, with the limits that these give to the processor. -/
def tables (gdt : Nat → GdtE) (isrs : Fin 32 → Word) (irqs : Fin 16 → Word) : Tables where
  gdt := fun i => (gdtInit gdt i).bits
  gdtLimit := 8 * 5 - 1
  idt := fun v => (idtInit isrs irqs v).bits
  idtLimit := 8 * 256 - 1

section
variable {gdt : Nat → GdtE} {isrs : Fin 32 → Word} {irqs : Fin 16 → Word} {m : Machine} {v i : Nat}
  {base lim : BitVec 64} {acc gran flags : BitVec 8} {add : Word} {sel : BitVec 16}

/-! ## Reading what was written -/

/-- The base of a descriptor is in three fields. -/
lemma GdtE.base_bits (e : GdtE) : e.bits.base = e.baseHigh ++ e.baseMid ++ e.baseLow := by
  have hlow : e.bits.extractLsb' 16 16 = e.baseLow :=
    (field_skip (w := 16) 0 16).trans BitVec.extractLsb'_append_eq_right
  have hmid : e.bits.extractLsb' 32 8 = e.baseMid :=
    (field_skip (w := 16) 16 8).trans ((field_skip (w := 16) 0 8).trans
      BitVec.extractLsb'_append_eq_right)
  have hhigh : e.bits.extractLsb' 56 8 = e.baseHigh :=
    (field_skip (w := 16) 40 8).trans ((field_skip (w := 16) 24 8).trans ((field_skip (w := 8) 16 8).trans
      ((field_skip (w := 8) 8 8).trans BitVec.extractLsb'_append_eq_left)))
  rw [Descriptor.base, hlow, hmid, hhigh]

/-- The byte `gran`, with the bits 48 to 55. -/
lemma GdtE.gran_bits (e : GdtE) {k n : Nat} (h : k + n ≤ 8) :
    e.bits.extractLsb' (48 + k) n = e.gran.extractLsb' k n := by
  have h₁ : e.bits.extractLsb' (16 + (16 + (8 + (8 + k)))) n = (e.baseHigh ++ e.gran).extractLsb' k n :=
    (field_skip (w := 16) _ n).trans ((field_skip (w := 16) _ n).trans ((field_skip (w := 8) _ n).trans
      (field_skip (w := 8) k n)))
  rw [show 48 + k = 16 + (16 + (8 + (8 + k))) by omega, h₁, BitVec.extractLsb'_append_eq_of_add_le h]

/-- The access byte of a descriptor is one field. -/
lemma GdtE.access_bits (e : GdtE) : e.bits.access = e.access :=
  (field_skip (w := 16) 24 8).trans ((field_skip (w := 16) 8 8).trans ((field_skip (w := 8) 0 8).trans
    BitVec.extractLsb'_append_eq_right))

/-- The limit of a descriptor is in two fields. -/
lemma GdtE.limit20_bits (e : GdtE) : e.bits.limit20 = e.gran.extractLsb' 0 4 ++ e.limLow := by
  have hlow : e.bits.extractLsb' 0 16 = e.limLow := BitVec.extractLsb'_append_eq_right
  rw [Descriptor.limit20, hlow]
  exact congrArg (· ++ e.limLow) (e.gran_bits (show 0 + 4 ≤ 8 by decide))

/-- The offset of a gate is in two fields. -/
lemma IdtE.offset_bits (e : IdtE) : e.bits.offset = e.high ++ e.low := by
  have hlow : e.bits.extractLsb' 0 16 = e.low := BitVec.extractLsb'_append_eq_right
  have hhigh : e.bits.extractLsb' 48 16 = e.high :=
    (field_skip (w := 16) 32 16).trans ((field_skip (w := 16) 16 16).trans
      ((field_skip (w := 8) 8 16).trans BitVec.extractLsb'_append_eq_left))
  rw [Descriptor.offset, hlow, hhigh]

/-- The selector of a gate is one field. -/
lemma IdtE.selector_bits (e : IdtE) : e.bits.selector = e.sel :=
  (field_skip (w := 16) 0 16).trans BitVec.extractLsb'_append_eq_right

/-- The access byte of a gate is one field. -/
lemma IdtE.access_bits (e : IdtE) : e.bits.access = e.flags :=
  (field_skip (w := 16) 24 8).trans ((field_skip (w := 16) 8 8).trans ((field_skip (w := 8) 0 8).trans
    BitVec.extractLsb'_append_eq_right))

/-- The two halves of the address of a stub are put together again. -/
lemma idtEntry_offset : (idtEntry add sel flags).bits.offset = add := by
  have hlow : (idtEntry add sel flags).low = add.extractLsb' 0 16 :=
    field_low (x := add) (m := 0xFFFF) (by decide)
  have hhigh : (idtEntry add sel flags).high = add.extractLsb' 16 16 :=
    field_mask (x := add) (m := 0xFFFF) 16 (by decide)
  rw [IdtE.offset_bits, hlow, hhigh,
    BitVec.extractLsb'_append_extractLsb'_eq_extractLsb' (show 16 = 0 + 16 from rfl)]
  exact BitVec.extractLsb'_eq_self

/-- The three pieces of the base of a segment, too. -/
lemma gdtEntry_base : (gdtEntry base lim acc gran).bits.base = base.setWidth 32 := by
  have hlow : (gdtEntry base lim acc gran).baseLow = base.extractLsb' 0 16 :=
    field_low (x := base) (m := 0xFFFF) (by decide)
  have hmid : (gdtEntry base lim acc gran).baseMid = base.extractLsb' 16 8 :=
    field_mask (x := base) (m := 0xFF) 16 (by decide)
  have hhigh : (gdtEntry base lim acc gran).baseHigh = base.extractLsb' 24 8 :=
    field_mask (x := base) (m := 0xFF) 24 (by decide)
  rw [GdtE.base_bits, hlow, hmid, hhigh,
    BitVec.extractLsb'_append_extractLsb'_eq_extractLsb' (show 24 = 16 + 8 from rfl),
    BitVec.extractLsb'_append_extractLsb'_eq_extractLsb' (show 16 = 0 + 16 from rfl)]
  exact (BitVec.setWidth_eq_extractLsb' (by decide)).symm

/-- A limit of more than 20 bits is cut off. -/
lemma gdtEntry_limit20 : (gdtEntry base lim acc gran).bits.limit20 = lim.setWidth 20 := by
  have hlow : (gdtEntry base lim acc gran).limLow = lim.extractLsb' 0 16 :=
    field_low (x := lim) (m := 0xFFFF) (by decide)
  have hgran : (gdtEntry base lim acc gran).gran.extractLsb' 0 4 = lim.extractLsb' 16 4 := by
    ext i hi
    interval_cases i <;> simp [gdtEntry]
  rw [GdtE.limit20_bits, hlow, hgran,
    BitVec.extractLsb'_append_extractLsb'_eq_extractLsb' (show 16 = 0 + 16 from rfl)]
  exact (BitVec.setWidth_eq_extractLsb' (by decide)).symm

/-- The upper half of the granularity are the flags. -/
lemma gdtEntry_flags : (gdtEntry base lim acc gran).bits.flags = gran.extractLsb' 4 4 := by
  have hgran : (gdtEntry base lim acc gran).gran.extractLsb' 4 4 = gran.extractLsb' 4 4 := by
    ext i hi
    interval_cases i <;> simp [gdtEntry]
  exact (GdtE.gran_bits _ (show 4 + 4 ≤ 8 by decide)).trans hgran

/-! ## The tables -/

/-- The segments cover everything, from 0 to the end of the address space. -/
lemma gdtInit_flat (hi : i ∈ [1, 2, 3, 4]) : (gdtInit gdt i).bits.base = 0 ∧
    (gdtInit gdt i).bits.limit = 0xFFFFFFFF ∧ (gdtInit gdt i).bits.access = accBytes.getD i 0 := by
  have hentry : gdtInit gdt i = gdtEntry 0 0xFFFFFFFF (accBytes.getD i 0) 0xCF := by
    simp only [List.mem_cons, List.not_mem_nil, or_false] at hi
    obtain rfl | rfl | rfl | rfl := hi <;> rfl
  rw [hentry, gdtEntry_base, Descriptor.limit, gdtEntry_flags, gdtEntry_limit20, GdtE.access_bits]
  exact ⟨rfl, rfl, rfl⟩

/-- Stores to entries, one after the other. -/
lemma foldl_idtAddEntry {L : List Nat} {entries : Nat → IdtE} : L.foldl
    (fun entries v => idtAddEntry entries v (stub isrs irqs v) sel flags) entries v =
      if v ∈ L then idtEntry (stub isrs irqs v) sel flags else entries v := by
  induction L generalizing entries with
  | nil => rfl
  | cons u L ih =>
    rw [List.foldl_cons, ih]
    by_cases hvu : v = u
    · subst hvu
      simp [idtAddEntry]
    · simp [idtAddEntry, hvu]

/-- The gates that `idt_init` makes. -/
lemma idtInit_eq : idtInit isrs irqs v =
    if v < 48 then idtEntry (stub isrs irqs v) 0x08 0x8E else ⟨0, 0, 0, 0, 0⟩ := by
  rw [idtInit, foldl_idtAddEntry]
  simp only [List.mem_range]

/-- The code segment of the gates. -/
lemma tables_code : (tables gdt isrs irqs).code 0x08 0 = some (gdtInit gdt 1).bits := by
  have haccess : (gdtInit gdt 1).bits.access = accBytes.getD 1 0 := (gdtInit_flat (by decide)).2.2
  have hcode : (gdtInit gdt 1).bits.IsCode := by
    rw [Descriptor.IsCode, Descriptor.kind, Descriptor.present, haccess]
    decide
  have hdpl : (gdtInit gdt 1).bits.dpl = 0 := by
    rw [Descriptor.dpl, haccess]
    decide
  have hlim : 8 * ((0x08 : BitVec 16).toNat / 8) + 7 ≤ (tables gdt isrs irqs).gdtLimit :=
    show 15 ≤ 39 by decide
  exact if_pos ⟨by decide, by decide, hlim, hcode, hdpl⟩

/-- With these tables the processor takes the first 48 interrupts, and no other one, as `interrupt` says,
and goes on at the stub. -/
lemma tables_deliver (hcs : m.cs.setWidth 2 = (0 : BitVec 2)) :
    (tables gdt isrs irqs).deliver v m =
      if v < 48 then some ((interrupt m).goto (stub isrs irqs v)) else none := by
  have hidt : (tables gdt isrs irqs).idt v = (idtInit isrs irqs v).bits := rfl
  have hlim : (tables gdt isrs irqs).idtLimit = 2047 := rfl
  rw [Tables.deliver, hidt, hlim, hcs, idtInit_eq]
  by_cases hv : v < 48
  · have hbase : (gdtInit gdt 1).bits.base = 0 := (gdtInit_flat (by decide)).1
    have hlimit : (gdtInit gdt 1).bits.limit = 0xFFFFFFFF := (gdtInit_flat (by decide)).2.1
    have hgate : (idtEntry (stub isrs irqs v) 0x08 0x8E).bits.IsGate := by
      rw [Descriptor.IsGate, Descriptor.kind, Descriptor.present, IdtE.access_bits]
      exact ⟨show BitVec.extractLsb' 0 5 (0x8E : BitVec 8) = 0xE by decide,
        show (0x8E : BitVec 8).getLsbD 7 = true by decide⟩
    have hsel : (idtEntry (stub isrs irqs v) 0x08 0x8E).bits.selector = 0x08 := IdtE.selector_bits _
    have hle : stub isrs irqs v ≤ 0xFFFFFFFF := by
      rw [BitVec.le_def]
      exact Nat.le_of_lt_succ (stub isrs irqs v).isLt
    have hadd : (0 : Word) + stub isrs irqs v = stub isrs irqs v := BitVec.zero_add _
    simp only [if_pos hv, if_pos (And.intro (show 8 * v + 7 ≤ 2047 by omega) hgate), hsel, tables_code,
      idtEntry_offset, hbase, hlimit, if_pos hle, hadd]
    rfl
  · have hgate : ¬ (IdtE.bits ⟨0, 0, 0, 0, 0⟩).IsGate := by decide
    simp only [if_neg hv, if_neg fun h => hgate (And.right h)]

/-- The interrupt of the line `idx` comes to the stub that was made for it, and its handler is told the
vector of that line. -/
lemma irq_delivered (hcs : m.cs.setWidth 2 = (0 : BitVec 2)) (idx : Fin 16) (ret : Word) :
    ∃ m', (tables gdt isrs irqs).deliver (32 + idx) m = some m' ∧ m'.eip = irqs idx ∧
      Regs.at (m'.exec (irq idx ret)).mem (irqArg m idx ret) =
        { seen m idx ret with fs := (m.seg .es).setWidth 32 } := by
  have hstub : stub isrs irqs (32 + idx) = irqs idx := by
    rw [stub, dif_neg (by omega), Nat.add_sub_cancel_left, Fin.ofNat_val_eq_self]
  have hstraight : ∀ i ∈ irq idx ret, i ≠ .ret ∧ i ≠ .iret := by
    intro i hi
    fin_cases hi <;> exact ⟨nofun, nofun⟩
  refine ⟨(interrupt m).goto (irqs idx), ?_, rfl, ?_⟩
  · rw [tables_deliver hcs, if_pos (by omega), hstub]
  · rw [Machine.exec_goto hstraight, Machine.goto_mem, ← irqEntered, irq_seen]

/-- What `gdt_init` and `idt_init` make of an interrupt in the kernel: an exception comes to its own stub,
a hardware interrupt to its own stub and handler frame, and nothing comes with another vector. -/
theorem interrupts_delivered (hcs : m.cs.setWidth 2 = (0 : BitVec 2)) :
    (∀ v : Fin 32, (tables gdt isrs irqs).deliver v m = some ((interrupt m).goto (isrs v))) ∧
      (∀ (idx : Fin 16) (ret : Word), ∃ m', (tables gdt isrs irqs).deliver (32 + idx) m = some m' ∧
        m'.eip = irqs idx ∧ Regs.at (m'.exec (irq idx ret)).mem (irqArg m idx ret) =
          { seen m idx ret with fs := (m.seg .es).setWidth 32 }) ∧
      ∀ v, 48 ≤ v → (tables gdt isrs irqs).deliver v m = none := by
  refine ⟨fun v => ?_, irq_delivered hcs, fun v hv => ?_⟩
  · rw [tables_deliver hcs, if_pos (by omega), stub, dif_pos v.isLt]
  · rw [tables_deliver hcs, if_neg (by omega)]

/-- The timer interrupts the code at `0x1000`. -/
theorem interrupts_delivered_timer : ∃ m', (tables (fun _ => ⟨0, 0, 0, 0, 0, 0⟩)
    (fun v => .ofNat 32 (0x100000 + 16 * v)) (fun k => .ofNat 32 (0x100200 + 16 * k))).deliver 32
      ⟨fun _ => 0x9000, fun _ => 0x10, 0x08, 0x1000, 0x202, fun _ => 0⟩ = some m' ∧
        m'.eip = 0x100200 := by
  obtain ⟨m', hm, heip, -⟩ := (interrupts_delivered
    (m := ⟨fun _ => 0x9000, fun _ => 0x10, 0x08, 0x1000, 0x202, fun _ => 0⟩) (by decide)).2.1 0 0
  exact ⟨m', hm, heip⟩

end

end ToeS.Trap
