import ToeS.Vga.Defs

/-!
# kprintf

Model of `kprintf` and `itoa` in `kern/misc/klib.c`. The format, the strings and the arguments on the
stack are in the memory `m`, which `kprintf` does not write; the static buffer of `itoa` is an object of
its own. A store outside of it is a fault. `temp` is an index into the format, and `read` remembers the
indices of the format that were read, the last one first.
-/

namespace ToeS.Klib
open Lib Vga

/-- What outlives a call: the console and `buf` of `itoa`. -/
structure Printer where
  console : Vga.State
  buf : Vector UInt8 32

/-- The variables of `kprintf`. -/
structure Scan where
  temp : Nat
  arg : Nat
  read : List Nat
  out : Printer

/-- The string `"0123456789abcdef"` that `itoa` takes its digits from. -/
def hexDigits : List UInt8 := "0123456789abcdef".toList.map Char.toUInt8

/-- A character of `hexDigits`; the one behind the last is the terminator. -/
def hexDigit (d : Nat) : UInt8 := hexDigits.getD d 0

/-- A store to `buf[i]`. -/
def putBuf (buf : Vector UInt8 32) (i : Nat) (c : UInt8) : Except Fault (Vector UInt8 32) :=
  if h : i < 32 then .ok (buf.set i c) else .error .outOfBounds

/-- The loop of `itoa`, with the final `i`. -/
def itoaLoop (base : Nat) : Nat → Nat → Vector UInt8 32 → Except Fault (Vector UInt8 32 × Nat)
  | 0, _, buf => .ok (buf, 0)
  | i + 1, val, buf =>
    if val ≠ 0 then do
      let buf ← putBuf buf (i + 1) (hexDigit (val % base))
      itoaLoop base i (val / base) buf
    else .ok (buf, i + 1)

/-- C `itoa`, with the index of the result in `buf`. -/
def itoa (buf : Vector UInt8 32) (val base : Nat) : Except Fault (Vector UInt8 32 × Nat) :=
  if val ≠ 0 then do
    let (buf, i) ← itoaLoop base 30 val buf
    .ok (buf, i + 1)
  else do
    let buf ← putBuf buf 30 '0'.toUInt8
    .ok (buf, 29 + 1)

/-- Memory as seen from `buf`: the buffer is at 0, with other memory behind it. -/
def bufMem (m : Mem) (buf : Vector UInt8 32) : Mem := fun a => if h : a < 32 then buf[a] else m a

/-- `va_arg`. -/
def vaArg (m : Mem) (s : Scan) : BitVec 32 × Scan :=
  (.ofNat 32 (readWord m s.arg), { s with arg := u32 (s.arg + 4) })

/-- `vga_write_char(c)`. -/
def Scan.writeChar (s : Scan) (c : UInt8) : Scan :=
  { s with out := { s.out with console := vgaWriteChar s.out.console c } }

/-- `vga_write(itoa(i, base))`. -/
def writeItoa (m : Mem) (i : BitVec 32) (base : Nat) (s : Scan) : Except Fault Scan := do
  let (buf, p) ← itoa s.out.buf i.toNat base
  let console ← vgaWrite (bufMem m buf) p s.out.console
  .ok { s with out := ⟨console, buf⟩ }

/-- The switch of `kprintf` on the character `c`. -/
def convert (m : Mem) (c : UInt8) (s : Scan) : Except Fault Scan :=
  if c = 'c'.toUInt8 then
    let (i, s) := vaArg m s
    writeItoa m i 10 s
  else if c = 'd'.toUInt8 then
    let (i, s) := vaArg m s
    if i.toInt < 0 then writeItoa m (-i) 10 (s.writeChar '-'.toUInt8) else writeItoa m i 10 s
  else if c = 'o'.toUInt8 then
    let (i, s) := vaArg m s
    writeItoa m i 8 s
  else if c = 's'.toUInt8 then do
    let (str, s) := vaArg m s
    let console ← vgaWrite m str.toNat s.out.console
    .ok { s with out := { s.out with console } }
  else if c = 'x'.toUInt8 then
    let (i, s) := vaArg m s
    writeItoa m i 16 s
  else .ok s

/-- A read of `*temp`. -/
def Scan.look (m : Mem) (fmt : Nat) (s : Scan) : UInt8 × Scan :=
  (m (u32 (fmt + s.temp)), { s with read := s.temp :: s.read })

/-- The body of the loop of `kprintf`. -/
def body (m : Mem) (fmt : Nat) (s : Scan) : Except Fault Scan :=
  let (c, s) := s.look m fmt
  if c ≠ '%'.toUInt8 then
    let s := s.writeChar c
    .ok { s with temp := s.temp + 1 }
  else do
    let s := { s with temp := s.temp + 1 }
    let (c, s) := s.look m fmt
    let s ← convert m c s
    .ok { s with temp := s.temp + 1 }

/-- The loop of `kprintf`. -/
def scan (m : Mem) (fmt : Nat) : Nat → Scan → Except Fault Scan
  | 0, _ => .error .diverges
  | n + 1, s =>
    let (c, s) := s.look m fmt
    if c ≠ 0 then do
      let s ← body m fmt s
      scan m fmt n s
    else .ok s

/-- C `kprintf` for the format at `fmt`, with the other arguments from `arg` on. -/
def kprintf (m : Mem) (fmt arg : Nat) (p : Printer) : Except Fault Scan :=
  scan m fmt chainFuel ⟨0, arg, [], p⟩

/-- The memory and the arguments of a call. -/
structure Call where
  mem : Mem
  fmt : Nat
  arg : Nat

/-- A call of `kprintf`. -/
def call (p : Printer) (c : Call) : Except Fault Printer :=
  (kprintf c.mem c.fmt c.arg p).map Scan.out

/-- Before the first call `buf` is zero. -/
def Printer.boot (console : Vga.State) : Printer := ⟨console, .replicate 32 0⟩

end ToeS.Klib
