import Mathlib.Tactic

/-!
# Interrupt controllers

Two 8259A controllers as a PC wires them: devices are on the lines of both, and the slave reports to
line 2 of the master. The lines are edge-triggered and a smaller number comes first; a line in service
keeps back itself and those behind it until the end of interrupt.

Rotating priorities, the special mask mode, automatic end of interrupt, polling and reads are left out.
A command for one of them changes nothing here, and controllers that are in another mode, or not wired as
their initialisation says, answer an acknowledge with no vector.

The slave takes its output back when its request is acknowledged, so each of its requests is a new edge
for the master. `Pair.wired` therefore reads line 2 of the master off the slave.
-/

namespace ToeS.Lib.Pic

/-- A line of one controller. -/
abbrev Line := Fin 8

scoped instance neZero_eight : NeZero 8 := ⟨by decide⟩

/-- The interrupts of two controllers are numbers below 16. -/
scoped instance neZero_sixteen : NeZero 16 := ⟨by decide⟩

/-- What a controller takes the next byte at its data port for. -/
inductive Phase where
  | icw2
  | icw3
  | icw4
  | ready
  deriving DecidableEq

/-- The registers of a controller. -/
structure Chip where
  phase : Phase
  single : Bool
  ic4 : Bool
  base : UInt8
  cascade : UInt8
  mode : UInt8
  imr : Finset Line
  irr : Finset Line
  isr : Finset Line

/-- The lines whose bits are set. -/
def lines (v : UInt8) : Finset Line := Finset.univ.filter fun l => v.toNat.testBit l

/-- The line of a set that comes first. -/
def first (S : Finset Line) : Option Line := (List.finRange 8).find? (· ∈ S)

namespace Chip

/-- The end of interrupt that names no line ends the service of the first one. -/
def eoi (c : Chip) : Chip :=
  match first c.isr with
  | some l => { c with isr := c.isr.erase l }
  | none => c

/-- A byte at the command port. -/
def command (c : Chip) (v : UInt8) : Chip :=
  if v.toNat.testBit 4 then
    { c with phase := .icw2, single := v.toNat.testBit 1, ic4 := v.toNat.testBit 0, mode := 0,
             imr := ∅, irr := ∅ }
  else if v = 0x20 then c.eoi
  else c

/-- A byte at the data port. -/
def data (c : Chip) (v : UInt8) : Chip :=
  let last := if c.ic4 then Phase.icw4 else .ready
  match c.phase with
  | .icw2 => { c with base := v, phase := if c.single then last else .icw3 }
  | .icw3 => { c with cascade := v, phase := last }
  | .icw4 => { c with mode := v, phase := .ready }
  | .ready => { c with imr := lines v }

/-- The line that the controller reports: the first one that is not masked, if none that is in service
comes before it. -/
def request (c : Chip) : Option Line :=
  (first (c.irr \ c.imr)).filter fun l => ∀ i ∈ c.isr, l < i

/-- The request of a line is taken. -/
def ack (c : Chip) (l : Line) : Chip := { c with irr := c.irr.erase l, isr := insert l c.isr }

/-- The vector of a line. -/
def vector (c : Chip) (l : Line) : Nat := c.base.toNat / 8 * 8 + l

end Chip

/-- A line of the master. -/
def lo (l : Line) : Fin 16 := Fin.castAdd 8 l

/-- A line of the slave: these are 8 to 15. -/
def hi (l : Line) : Fin 16 := Fin.natAdd 8 l

/-- A function on the lines of the master and on those of the slave. -/
def split {α : Type} (f g : Line → α) (k : Fin (8 + 8)) : α := Fin.addCases f g k

/-- Master and slave. -/
structure Pair where
  master : Chip
  slave : Chip

namespace Pair

/-- A byte at a port. -/
def out (p : Pair) (port : Nat) (v : UInt8) : Pair :=
  if port = 0x20 then { p with master := p.master.command v }
  else if port = 0x21 then { p with master := p.master.data v }
  else if port = 0xA0 then { p with slave := p.slave.command v }
  else if port = 0xA1 then { p with slave := p.slave.data v }
  else p

/-- A device asks for service. -/
def raise (p : Pair) (k : Fin 16) : Pair :=
  split (fun l => { p with master := { p.master with irr := insert l p.master.irr } })
    (fun l => { p with slave := { p.slave with irr := insert l p.slave.irr } }) k

/-- A device takes its request back. -/
def withdraw (p : Pair) (k : Fin 16) : Pair :=
  split (fun l => { p with master := { p.master with irr := p.master.irr.erase l } })
    (fun l => { p with slave := { p.slave with irr := p.slave.irr.erase l } }) k

/-- The master with the output of the slave on line 2. -/
def wired (p : Pair) : Chip :=
  { p.master with
    irr := if p.slave.request.isSome then insert 2 p.master.irr else p.master.irr.erase 2 }

/-- The line to the processor. -/
def int (p : Pair) : Bool := p.wired.request.isSome

/-- The controllers have been told how they are wired, and are in the mode of the 8086. -/
def Cascaded (p : Pair) : Prop :=
  p.master.phase = .ready ∧ p.slave.phase = .ready ∧ p.master.single = false ∧
    p.slave.single = false ∧ p.master.cascade = 0x04 ∧ p.slave.cascade = 0x02 ∧
    p.master.mode = 0x01 ∧ p.slave.mode = 0x01

instance (p : Pair) : Decidable p.Cascaded := inferInstanceAs (Decidable (_ ∧ _))

/-- The processor acknowledges. A controller that has nothing to report any more answers with the vector
of its line 7. -/
def inta (p : Pair) : Option (Nat × Pair) :=
  if p.Cascaded then
    match p.wired.request with
    | none => some (p.master.vector 7, p)
    | some l =>
      if l = 2 then
        match p.slave.request with
        | none => some (p.slave.vector 7, { p with master := p.master.ack 2 })
        | some i => some (p.slave.vector i, ⟨p.master.ack 2, p.slave.ack i⟩)
      else some (p.master.vector l, { p with master := p.master.ack l })
  else none

/-- The slave's request was the one to be acknowledged, and is taken back in between. -/
def Late (p : Pair) : Prop :=
  p.slave.request = none ∧ { p.master with irr := insert 2 p.master.irr }.request = some 2

instance (p : Pair) : Decidable p.Late := inferInstanceAs (Decidable (_ ∧ _))

/-- The answer to such an acknowledge. -/
def intaLate (p : Pair) : Option (Nat × Pair) :=
  if p.Cascaded then some (p.slave.vector 7, { p with master := p.master.ack 2 }) else none

end Pair

/-! ## The lines of the two -/

section
variable {α : Type} {f g : Line → α} {l l' : Line}

/-- A line of the master is looked up in the master's. -/
@[simp] lemma split_lo : split f g (lo l) = f l := Fin.addCases_left l

/-- A line of the slave is looked up in the slave's. -/
@[simp] lemma split_hi : split f g (hi l) = g l := Fin.addCases_right l

/-- A line is one of the master or one of the slave. -/
@[elab_as_elim] lemma line_cases {P : Fin 16 → Prop} (lo : ∀ l, P (lo l)) (hi : ∀ l, P (hi l))
    (k : Fin (8 + 8)) : P k :=
  Fin.addCases lo hi k

/-- The master has the first eight lines. -/
@[simp] lemma lo_val : (lo l).val = l := rfl

/-- The slave has the lines from 8 on. -/
@[simp] lemma hi_val : (hi l).val = 8 + l := rfl

/-- Lines of the master are told apart by their number there. -/
@[simp] lemma lo_inj : lo l = lo l' ↔ l = l' := by
  rw [Fin.ext_iff, Fin.ext_iff, lo_val, lo_val]

/-- Lines of the slave are told apart by their number there. -/
@[simp] lemma hi_inj : hi l = hi l' ↔ l = l' := by
  rw [Fin.ext_iff, Fin.ext_iff, hi_val, hi_val, Nat.add_left_cancel_iff]

/-- No line is one of both. -/
@[simp] lemma lo_ne_hi : lo l ≠ hi l' := by
  rw [ne_eq, Fin.ext_iff, lo_val, hi_val]
  omega

/-- No line is one of both, the other way round. -/
@[simp] lemma hi_ne_lo : hi l ≠ lo l' := lo_ne_hi.symm

end

/-! ## Priorities -/

section
variable {α : Type} {r : α → α → Prop} {L : List α} {p : α → Bool} {a : α}

/-- A search of a sorted list finds the least element. -/
lemma find?_least (hasymm : ∀ a b, r a b → ¬ r b a) (hL : L.Pairwise r) :
    L.find? p = some a ↔ a ∈ L ∧ p a ∧ ∀ b ∈ L, p b → b = a ∨ r a b := by
  induction L with
  | nil => simp
  | cons b L ih =>
    obtain ⟨hb, hL⟩ := List.pairwise_cons.mp hL
    by_cases hp : p b
    · rw [List.find?_cons_of_pos hp, Option.some_inj]
      constructor
      · rintro rfl
        refine ⟨List.mem_cons_self, hp, fun c hc _ => ?_⟩
        rcases List.mem_cons.mp hc with rfl | hc
        · exact .inl rfl
        · exact .inr (hb c hc)
      · rintro ⟨ha, -, hleast⟩
        rcases hleast b List.mem_cons_self hp with h | h
        · exact h
        · rcases List.mem_cons.mp ha with rfl | ha
          · rfl
          · exact absurd h (hasymm _ _ (hb a ha))
    · rw [List.find?_cons_of_neg hp, ih hL]
      constructor
      · rintro ⟨ha, hpa, hleast⟩
        refine ⟨List.mem_cons_of_mem _ ha, hpa, fun c hc hpc => ?_⟩
        rcases List.mem_cons.mp hc with rfl | hc
        · exact absurd hpc hp
        · exact hleast c hc hpc
      · rintro ⟨ha, hpa, hleast⟩
        rcases List.mem_cons.mp ha with rfl | ha
        · exact absurd hpa hp
        · exact ⟨ha, hpa, fun c hc => hleast c (List.mem_cons_of_mem _ hc)⟩

end

section
variable {S : Finset Line} {l : Line} {c : Chip} {p : Pair}

/-- The first line of a set is its least. -/
lemma first_eq_some : first S = some l ↔ l ∈ S ∧ ∀ i ∈ S, l ≤ i := by
  rw [first, find?_least (fun a b h => h.asymm) (List.pairwise_lt_finRange 8)]
  simp only [List.mem_finRange, decide_eq_true_eq, true_and, forall_const]
  refine and_congr_right fun _ => forall_congr' fun i => imp_congr_right fun _ => ?_
  rw [le_iff_eq_or_lt, eq_comm]

/-- Only the empty set has none. -/
lemma first_eq_none : first S = none ↔ S = ∅ := by
  rw [first, List.find?_eq_none, Finset.eq_empty_iff_forall_notMem]
  simp

namespace Chip

/-- A chip asks for the least line that is raised and not masked, if none before it is in service. -/
lemma request_eq_some : c.request = some l ↔
    (l ∈ c.irr \ c.imr ∧ ∀ i ∈ c.irr \ c.imr, l ≤ i) ∧ ∀ i ∈ c.isr, l < i := by
  rw [request, Option.filter_eq_some_iff, first_eq_some]
  simp

/-- With nothing masked and nothing in service, the first request is reported. -/
lemma request_idle (hm : c.imr = ∅) (hs : c.isr = ∅) : c.request = first c.irr := by
  rw [request, hm, hs, Finset.sdiff_empty]
  cases first c.irr <;> simp

/-- Line 0 in service keeps back everything. -/
lemma request_blocked (h : 0 ∈ c.isr) : c.request = none := by
  rw [Option.eq_none_iff_forall_ne_some]
  intro l hl
  exact absurd ((request_eq_some.mp hl).2 0 h) (Nat.not_lt_zero _)

/-- The end of interrupt for the only line in service. -/
lemma eoi_single (h : c.isr = {l}) : c.eoi = { c with isr := ∅ } := by
  have hf : first c.isr = some l := by
    rw [h, first_eq_some]
    simp
  rw [eoi, hf]
  simp only [h, Finset.erase_singleton]

/-- With nothing in service it changes nothing. -/
lemma eoi_empty (h : c.isr = ∅) : c.eoi = c := by
  rw [eoi, first_eq_none.mpr h]

/-- `0x20` is the end of interrupt. -/
lemma command_eoi (c : Chip) : c.command 0x20 = c.eoi := by
  rw [command, if_neg (by decide), if_pos rfl]

end Chip

namespace Pair

/-- With line 0 in service the pair does not ask for an interrupt. -/
lemma int_blocked (h : 0 ∈ p.master.isr) : p.int = false := by
  rw [int, Chip.request_blocked (c := p.wired) h]
  rfl

end Pair

end

end ToeS.Lib.Pic
