import ToeS.Klib.Printf
import ToeS.Vga.Display

/-!
# itoa in every base

The two `itoa`, of `kern/misc/klib.c` and of `v1/os/sys.c`, for the bases that have digits. Both write
from the end of a buffer that all calls share and stop after thirty digits. Only the one of the kernel
has a text for 0. What a call returns does not depend on what the calls before it left in the buffer.
-/

namespace ToeS.Klib
open Lib Vga

/-- C `itoa` of `v1/os/sys.c`, with the index of the result in `buf`. -/
def itoaV1 (buf : Vector UInt8 32) (val base : Nat) : Except Fault (Vector UInt8 32 × Nat) := do
  let (buf, i) ← itoaLoop base 30 val buf
  .ok (buf, i + 1)

/-- The `itoa` of a kernel. -/
def itoaOf : Kernel → Vector UInt8 32 → Nat → Nat → Except Fault (Vector UInt8 32 × Nat)
  | .kern => itoa
  | .v1 => itoaV1

/-- The arguments of a call, with a base that `"0123456789abcdef"` has digits for. -/
structure Number where
  val : BitVec 32
  base : Nat
  two_le : 2 ≤ base
  le_sixteen : base ≤ 16

/-- The buffer, and the index in it that the last call returned. -/
structure Buffer where
  buf : Vector UInt8 32
  text : Nat

/-- The static buffer before the first call. -/
def Buffer.boot : Buffer := ⟨.replicate 32 0, 0⟩

/-- A call of `itoa`. -/
def Buffer.call (kernel : Kernel) (s : Buffer) (c : Number) : Except Fault Buffer :=
  (itoaOf kernel s.buf c.val.toNat c.base).map fun (buf, text) => ⟨buf, text⟩

section
variable {kernel : Kernel} {base i n : Nat} {l : List UInt8} {buf : Vector UInt8 32} {s : Buffer}
  {c : Number}

/-- The text of a call: at most thirty digits. -/
def Number.text (kernel : Kernel) (c : Number) : List UInt8 :=
  if kernel = .kern ∧ c.val.toNat = 0 then ['0'.toUInt8] else lowText hexDigit c.base 30 c.val.toNat

/-- Thirty digits are enough, and there is one. -/
def Number.Fits (kernel : Kernel) (c : Number) : Prop :=
  (c.base = 2 → c.val.toNat < 2 ^ 30) ∧ (kernel = .v1 → c.val.toNat ≠ 0)

/-- A digit of a base has its value. -/
lemma Number.digitVal_hexDigit (c : Number) : ∀ d < c.base, digitVal (hexDigit d) = some d :=
  fun _ hd => Klib.digitVal_hexDigit (hd.trans_le c.le_sixteen)

/-- The loop puts the digits in front of what is there, until one or all of them are written. -/
lemma itoaLoop_low (hb : 1 < base) (hb' : base ≤ 16) (hi : i + 1 + l.length = 31)
    (S : ∀ m, IsStr (bufMem m buf) (i + 1) l) :
    ∃ buf' i', itoaLoop base i n buf = .ok (buf', i') ∧
      i' + 1 + (lowText hexDigit base i n ++ l).length = 31 ∧
      ∀ m, IsStr (bufMem m buf') (i' + 1) (lowText hexDigit base i n ++ l) := by
  induction i generalizing n l buf with
  | zero => exact ⟨buf, 0, rfl, hi, S⟩
  | succ i ih =>
    rw [itoaLoop, lowText]
    by_cases hn : n = 0
    · rw [if_neg (not_not.mpr hn), if_pos hn]
      exact ⟨buf, i + 1, rfl, hi, S⟩
    · have hd : n % base < 16 := (Nat.mod_lt _ (by omega)).trans_le hb'
      have hput : ∀ m, IsStr (bufMem m (buf.set (i + 1) (hexDigit (n % base)))) (i + 1)
          (hexDigit (n % base) :: l) := fun m => putBuf_isStr (S m) hi (hexDigit_ne_zero hd)
      have hlen : i + 1 + (hexDigit (n % base) :: l).length = 31 := by
        rw [List.length_cons]
        omega
      obtain ⟨buf', i', hrun, hlen', S'⟩ := ih (n := n / base) hlen hput
      rw [if_pos hn, putBuf_lt (by omega), ok_bind, if_neg hn, List.append_assoc]
      exact ⟨buf', i', hrun, hlen', S'⟩

/-- The buffer ends in a 0. -/
def Buffer.Ends (s : Buffer) : Prop := ∀ m, IsStr (bufMem m s.buf) 31 []

/-- The text of the last call is in the buffer, up to its end. -/
structure Buffer.Holds (s : Buffer) (t : List UInt8) : Prop where
  inside : s.text + t.length = 31
  str : ∀ m, IsStr (bufMem m s.buf) s.text t

/-- The buffer is empty at first. -/
lemma Buffer.ends_boot : Buffer.boot.Ends := fun m =>
  isStr_nil.mpr ((bufMem_lt (by decide)).trans (Vector.getElem_replicate ..))

/-- A buffer with a text in it ends. -/
lemma Buffer.Holds.ends {t : List UInt8} (h : s.Holds t) : s.Ends := by
  intro m
  have hnul := (h.str m).nul
  rw [h.inside] at hnul
  exact isStr_nil.mpr hnul

/-- The loop writes the low digits. -/
lemma Buffer.call_loop (hs : s.Ends) : ∃ s' : Buffer,
    (itoaLoop c.base 30 c.val.toNat s.buf >>= fun (buf, i) => Except.ok (ε := Fault) (buf, i + 1)) =
      .ok (s'.buf, s'.text) ∧ s'.Holds (lowText hexDigit c.base 30 c.val.toNat) := by
  obtain ⟨buf', i, hrun, hlen, S⟩ := itoaLoop_low (n := c.val.toNat) c.two_le c.le_sixteen rfl hs
  rw [List.append_nil] at hlen S
  exact ⟨⟨buf', i + 1⟩, by rw [hrun, ok_bind], hlen, S⟩

/-- A call returns its text, whatever the buffer holds. -/
lemma Buffer.call_spec (hs : s.Ends) :
    ∃ s', s.call kernel c = .ok s' ∧ s'.Holds (c.text kernel) := by
  obtain ⟨s', hrun, hs'⟩ := Buffer.call_loop (c := c) hs
  rw [Number.text]
  cases kernel with
  | v1 =>
    rw [if_neg (fun h => nomatch h.1)]
    exact ⟨s', congrArg (Except.map _) hrun, hs'⟩
  | kern =>
    by_cases h0 : c.val.toNat = 0
    · have hz : ('0'.toUInt8 : UInt8) ≠ 0 := by decide
      have hcall : s.call .kern c = .ok ⟨s.buf.set 30 '0'.toUInt8, 30⟩ := by
        rw [Buffer.call, itoaOf, itoa, if_neg (not_not.mpr h0), putBuf_lt (by decide)]
        rfl
      rw [if_pos ⟨rfl, h0⟩]
      exact ⟨_, hcall, rfl, fun m => putBuf_isStr (hs m) rfl hz⟩
    · rw [if_neg (fun h => h0 h.2)]
      refine ⟨s', ?_, hs'⟩
      rw [Buffer.call, itoaOf, itoa, if_pos h0, hrun]
      rfl

/-- In every base but 2 an `unsigned int` has at most thirty digits. -/
lemma Number.lt_pow (c : Number) (h : c.base = 2 → c.val.toNat < 2 ^ 30) :
    c.val.toNat < c.base ^ 30 := by
  by_cases h2 : c.base = 2
  · rw [h2]
    exact h h2
  · have h3 : 3 ≤ c.base := by
      have := c.two_le
      omega
    calc c.val.toNat < 2 ^ 32 := c.val.isLt
      _ ≤ 3 ^ 30 := by norm_num
      _ ≤ c.base ^ 30 := Nat.pow_le_pow_left h3 30

/-- The text reads as the rest of the number, if it is not empty. -/
lemma Number.parse_text (c : Number) (h : kernel = .v1 → c.val.toNat ≠ 0) :
    parse digitVal c.base (c.text kernel) = some (c.val.toNat % c.base ^ 30) := by
  have hval := c.digitVal_hexDigit
  rw [Number.text]
  by_cases h0 : c.val.toNat = 0
  · have hk : kernel = .kern := by
      cases kernel with
      | kern => rfl
      | v1 => exact absurd h0 (h rfl)
    have hparse := parse_numeral (v := 0) c.two_le hval
    rw [if_pos ⟨hk, h0⟩, h0, Nat.zero_mod]
    exact hparse
  · rw [if_neg (fun h => h0 h.2)]
    exact parse_lowText c.two_le hval (by decide) h0

/-- A number that fits has all its digits. -/
lemma Number.text_eq (c : Number) (h : c.Fits kernel) :
    c.text kernel = numeral hexDigit c.base c.val.toNat := by
  obtain ⟨hlt, hv1⟩ := h
  rw [Number.text, numeral]
  by_cases h0 : c.val.toNat = 0
  · have hk : kernel = .kern := by
      cases kernel with
      | kern => rfl
      | v1 => exact absurd h0 (hv1 rfl)
    rw [if_pos ⟨hk, h0⟩, if_pos h0]
    decide
  · rw [if_neg (fun h => h0 h.2), if_neg h0, lowText_of_lt c.two_le (c.lt_pow hlt)]

/-- The text is the numeral exactly if the number fits. -/
lemma Number.reads_text (c : Number) :
    Reads c.base (c.text kernel) c.val.toNat ↔ c.Fits kernel := by
  constructor
  · intro h
    have hv1 : kernel = .v1 → c.val.toNat ≠ 0 := by
      rintro rfl h0
      have := h.value
      rw [Number.text, if_neg (fun h => nomatch h.1), h0, lowText_zero] at this
      exact nomatch this
    refine ⟨fun h2 => ?_, hv1⟩
    have hmod := (c.parse_text hv1).symm.trans h.value
    rw [h2] at hmod
    have hlt : c.val.toNat % 2 ^ 30 < 2 ^ 30 := Nat.mod_lt _ (by decide)
    rwa [Option.some.inj hmod] at hlt
  · intro h
    rw [c.text_eq h]
    exact reads_numeral c.two_le c.le_sixteen

/-- Whatever was written before, `itoa` stays inside of its buffer and returns a text there. The text is
the number in its base exactly if the base is not 2 or the number is below 2^30, and it is not the 0 of
the old kernel. -/
theorem itoa_reads (kernel : Kernel) (calls : List Number) (c : Number) :
    ∃ s t, exec (Buffer.call kernel) .boot (calls ++ [c]) = .ok s ∧
      s.text + t.length = 31 ∧ (∀ m, IsStr (bufMem m s.buf) s.text t) ∧
      (Reads c.base t c.val.toNat ↔ c.Fits kernel) := by
  have hstep : ∀ (s : Buffer) (c : Number), s.Ends → True →
      ∃ s', s.call kernel c = .ok s' ∧ s'.Ends := by
    intro s c hs _
    have hcall : ∃ s', s.call kernel c = .ok s' ∧ s'.Holds (c.text kernel) := Buffer.call_spec hs
    obtain ⟨s', h, hs'⟩ := hcall
    exact ⟨s', h, hs'.ends⟩
  have hl : LegalRun (Buffer.call kernel) (fun _ _ => True) .boot calls := .of_forall fun _ _ => trivial
  obtain ⟨s, hrun, hs, -⟩ := exec_inv (I := Buffer.Ends) hstep (fun _ hs => hs) Buffer.ends_boot hl
  have hlast : ∃ s', s.call kernel c = .ok s' ∧ s'.Holds (c.text kernel) := Buffer.call_spec hs
  obtain ⟨s', hcall, hs'⟩ := hlast
  refine ⟨s', c.text kernel, ?_, hs'.inside, hs'.str, c.reads_text⟩
  rw [exec_append hrun, exec_cons hcall, exec_nil]

end

end ToeS.Klib
