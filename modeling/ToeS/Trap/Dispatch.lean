import ToeS.Lib.Memory
import ToeS.Lib.Pic8259
import ToeS.Lib.Run

/-!
# Hardware interrupts as a system

Model of `pic_remap` of `kern/x86/idt.c`, of `add_int_handler` and `irq_handler` of `kern/x86/int.c` and of
`timer_handler` of `kern/misc/timer.c`, run against the interrupt controllers and the devices. `take` is
an interrupt up to the call that `irq_handler` makes, `ret` is the rest of `irq_handler` and the `iret`.
Any handler but that of the timer is left to do what it likes in between, with the interrupts off.

`schedule` is called by the handler of the timer only. When it comes back as another task, that task was
either left inside of a handler itself, or forked outside of one: then no handler is there to return, and
`ctx_swtch` leaves the interrupts off.

`Desk` is what all this is for: requests are served one at a time, the first one in the order of the
lines. `Agree` relates the two.
-/

namespace ToeS.Irq
open Lib Lib.Pic

/-! ## The code -/

/-- What `pic_remap` writes. -/
def remapBytes : List (Nat × UInt8) := [
  (0x20, 0x11), (0xA0, 0x11),
  (0x21, 0x20),
  (0xA1, 0x28),
  (0x21, 0x04),
  (0xA1, 0x02),
  (0x21, 0x01), (0xA1, 0x01),
  (0x21, 0x0), (0xA1, 0x0)]

/-- Calls of `outport`, one after the other. -/
def outports (p : Pair) (l : List (Nat × UInt8)) : Pair := l.foldl (fun p b => p.out b.1 b.2) p

/-- C `pic_remap`. -/
def picRemap (p : Pair) : Pair := outports p remapBytes

/-- The acknowledgement at the end of `irq_handler`, for the vector `n`. -/
def ackBytes (n : Nat) : List (Nat × UInt8) := (if n ≥ 40 then [(0xA0, 0x20)] else []) ++ [(0x20, 0x20)]

/-- `FREQ` of `kern/misc/timer.c`. -/
def freq : Nat := 10000

/-- A `handler_t`. -/
inductive Handler where
  | timer
  | other (addr : Nat)
  deriving DecidableEq

/-- The calls that `irq_handler` and `timer_handler` make. -/
inductive Call where
  | handler (h : Handler) (n : Nat)
  | kprintf (fmt : String) (n : Nat)
  | schedule
  deriving DecidableEq

/-- Where the running task, or one that sleeps, is: in its own code, or in `irq_handler` for a vector. -/
inductive Place where
  | own
  | irq (n : Nat)
  deriving DecidableEq

/-- The controllers, the globals `handlers` and `ticks`, the flag `IF`, and the tasks. `due` says that
`schedule` is to switch before the handler returns. -/
structure Sys where
  pics : Pair
  handlers : Nat → Option Handler
  ticks : Nat
  calls : List Call
  iflag : Bool
  place : Place
  due : Bool
  current : Nat
  asleep : Nat → Option Place

/-- C `timer_handler`. -/
def timerHandler (s : Sys) : Sys :=
  let ticks := u32 (s.ticks + 1)
  if ticks % freq = 0 then
    { s with ticks := 0, calls := s.calls ++ [.schedule], due := true }
  else { s with ticks := ticks }

/-- The call in `irq_handler`, for the vector `n`. -/
def irqCall (s : Sys) (n : Nat) : Sys :=
  match s.handlers n with
  | some h =>
    let s := { s with calls := s.calls ++ [.handler h n] }
    match h with
    | .timer => timerHandler s
    | .other _ => s
  | none => { s with calls := s.calls ++ [.kprintf "recieved hardware int %x (%d) \n" n] }

/-- What can happen. -/
inductive Event where
  | raise (k : Fin 16)
  | withdraw (k : Fin 16)
  | take
  | takeLate
  | ret
  | addIntHandler (n : UInt8) (h : Handler)
  | fork (child : Nat)
  | swtch (new : Nat)

/-- No vector comes from the controllers. -/
inductive Stuck where
  | noVector

/-- The processor takes an interrupt with the vector and the controllers in `r`. -/
def enter (s : Sys) (r : Option (Nat × Pair)) : Except Stuck Sys :=
  match r with
  | some (n, p) => .ok (irqCall { s with pics := p, iflag := false, place := .irq n } n)
  | none => .error .noVector

def step (s : Sys) : Event → Except Stuck Sys
  | .raise k => .ok { s with pics := s.pics.raise k }
  | .withdraw k => .ok { s with pics := s.pics.withdraw k }
  | .take => enter s s.pics.inta
  | .takeLate => enter s s.pics.intaLate
  | .ret =>
    match s.place with
    | .irq n =>
      .ok { s with pics := outports s.pics (ackBytes n), iflag := true, place := .own, due := false }
    | .own => .ok s
  | .addIntHandler n h => .ok { s with handlers := Function.update s.handlers n.toNat (some h) }
  | .fork child => .ok { s with asleep := Function.update s.asleep child (some .own) }
  | .swtch new =>
    .ok { s with
      asleep := Function.update (Function.update s.asleep s.current (some s.place)) new none
      current := new
      place := (s.asleep new).getD .own
      due := false }

/-- Line 2 of the master is not a device. The processor takes interrupts when `IF` is set, and the request
that it has seen may be gone. `timer_handler` is static, and `timer_init` installs it for the vector 32. -/
def Legal (s : Sys) : Event → Prop
  | .raise k | .withdraw k => k ≠ 2
  | .take => s.iflag = true
  | .takeLate => s.iflag = true ∧ s.pics.Late
  | .ret => s.place ≠ .own
  | .addIntHandler n h => h = .timer → n = 32
  | .fork child => s.place = .own ∧ child ≠ s.current ∧ s.asleep child = none
  | .swtch new => s.due = true ∧ s.asleep new ≠ none

instance : ∀ s e, Decidable (Legal s e)
  | _, .raise _ | _, .withdraw _ | _, .ret => inferInstanceAs (Decidable (_ ≠ _))
  | _, .take => inferInstanceAs (Decidable (_ = _))
  | _, .takeLate | _, .fork _ | _, .swtch _ => inferInstanceAs (Decidable (_ ∧ _))
  | _, .addIntHandler _ _ => inferInstanceAs (Decidable (_ → _))

/-- After `idt_init`, whatever was in the controllers. -/
def boot (p : Pair) : Sys where
  pics := picRemap p
  handlers := fun _ => none
  ticks := 0
  calls := []
  iflag := true
  place := .own
  due := false
  current := 0
  asleep := fun _ => none

/-! ## What it is for -/

/-- What the processor is interrupted for: a line, or a request that was taken back. -/
inductive Source where
  | line (k : Fin 16)
  | spurious (slave : Bool)

/-- The vector that it comes with. -/
def Source.vector : Source → Nat
  | .line k => 32 + k
  | .spurious false => 39
  | .spurious true => 47

/-- The requests that wait, the one that is served, and the vectors that have been served. -/
structure Desk where
  pending : Finset (Fin 16)
  active : Option Source
  served : List Nat

/-- The lines, the first one first. -/
def priority : List (Fin 16) := [0, 1, 8, 9, 10, 11, 12, 13, 14, 15, 3, 4, 5, 6, 7]

/-- The request that is served next. -/
def next (S : Finset (Fin 16)) : Option (Fin 16) := priority.find? (· ∈ S)

namespace Desk

/-- A service begins. -/
def serve (d : Desk) (x : Source) : Desk := { d with active := some x, served := d.served ++ [x.vector] }

def step (d : Desk) : Event → Except Stuck Desk
  | .raise k => .ok { d with pending := insert k d.pending }
  | .withdraw k => .ok { d with pending := d.pending.erase k }
  | .take =>
    match next d.pending with
    | some k => .ok ({ d with pending := d.pending.erase k }.serve (.line k))
    | none => .ok (d.serve (.spurious false))
  | .takeLate => .ok (d.serve (.spurious true))
  | .ret => .ok { d with active := none }
  | .addIntHandler _ _ | .fork _ | .swtch _ => .ok d

/-- Nothing to do. -/
def idle : Desk := ⟨∅, none, []⟩

end Desk

end ToeS.Irq
