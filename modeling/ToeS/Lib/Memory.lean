import Mathlib.Tactic

/-!
# Byte-addressed memory

A 32-bit address space of bytes with little-endian word access. Addresses are natural numbers and
every access reduces them modulo `2 ^ 32`, as pointer arithmetic on a 32-bit machine does.

The frame reasoning is by windows: `SameOff W m m'` says that `m'` differs from `m` only at
addresses of `W`. Every store has a window (`writeByte`, `writeWord`, `memset`), windows compose
(`SameOff.trans`), and a word whose four bytes lie off the window is unchanged
(`SameOff.readWord`).
-/

namespace ToeS.Lib

/-- A `uint32_t` value: a natural number modulo `2 ^ 32`. -/
def u32 (n : Nat) : Nat := n % 4294967296

/-- `uint32_t` subtraction. -/
def sub32 (a b : Nat) : Nat := (a + (4294967296 - b % 4294967296)) % 4294967296

/-- A 32-bit number is not reduced. -/
lemma u32_eq {n : Nat} (h : n < 4294967296) : u32 n = n := Nat.mod_eq_of_lt h

/-- What is reduced is a 32-bit number. -/
lemma u32_lt (n : Nat) : u32 n < 4294967296 := Nat.mod_lt _ (by decide)

/-- Reduction makes nothing larger. -/
lemma u32_le (n : Nat) : u32 n ≤ n := Nat.mod_le _ _

/-- A difference that is not negative does not wrap. -/
lemma sub32_eq {a b : Nat} (h : b ≤ a) (ha : a < 4294967296) : sub32 a b = a - b := by
  unfold sub32; omega

/-- The difference is a 32-bit number. -/
lemma sub32_lt (a b : Nat) : sub32 a b < 4294967296 := Nat.mod_lt _ (by decide)

/-- The bytes of memory, by address. -/
abbrev Mem := Nat → UInt8

/-- Store one byte. -/
def writeByte (m : Mem) (a : Nat) (v : UInt8) : Mem := fun x => if x = u32 a then v else m x

/-- Load the little-endian word at `a`. -/
def readWord (m : Mem) (a : Nat) : Nat :=
  (m (u32 a)).toNat + 256 * (m (u32 (a + 1))).toNat + 65536 * (m (u32 (a + 2))).toNat
    + 16777216 * (m (u32 (a + 3))).toNat

/-- Store the little-endian word `v` at `a`. -/
def writeWord (m : Mem) (a v : Nat) : Mem :=
  writeByte (writeByte (writeByte (writeByte m a (.ofNat v)) (a + 1) (.ofNat (v / 256)))
    (a + 2) (.ofNat (v / 65536))) (a + 3) (.ofNat (v / 16777216))

/-- Fill `n` bytes from `a` with `v`, first byte first. -/
def memset (m : Mem) (a : Nat) (v : UInt8) : Nat → Mem
  | 0 => m
  | n + 1 => writeByte (memset m a v n) (a + n) v

/-- Copy `n` bytes from `src` to `dst`, first byte first. -/
def memcpy (m : Mem) (src dst : Nat) : Nat → Mem
  | 0 => m
  | n + 1 =>
    let m := memcpy m src dst n
    writeByte m (dst + n) (m (u32 (src + n)))

/-! ## Reading back -/

/-- A byte that was written is read back. -/
lemma writeByte_same {m : Mem} {a : Nat} {v : UInt8} (h : a < 4294967296) :
    writeByte m a v a = v := by
  simp [writeByte, u32_eq h]

/-- A word is a 32-bit number. -/
lemma readWord_lt (m : Mem) (a : Nat) : readWord m a < 4294967296 := by
  have h0 := (m (u32 a)).toNat_lt
  have h1 := (m (u32 (a + 1))).toNat_lt
  have h2 := (m (u32 (a + 2))).toNat_lt
  have h3 := (m (u32 (a + 3))).toNat_lt
  unfold readWord; omega

/-- The last byte of a word. -/
lemma readWord_top {m : Mem} {a : Nat} (ha : a + 3 < 4294967296) :
    (m (a + 3)).toNat = readWord m a / 16777216 := by
  have h₀ := (m (u32 a)).toNat_lt
  have h₁ := (m (u32 (a + 1))).toNat_lt
  have h₂ := (m (u32 (a + 2))).toNat_lt
  unfold readWord
  rw [u32_eq (n := a + 3) ha]
  omega

/-- The bytes a word store leaves behind. -/
lemma writeWord_apply {m : Mem} {a v x : Nat} (h : a + 4 ≤ 4294967296) :
    writeWord m a v x =
      if x = a + 3 then .ofNat (v / 16777216) else if x = a + 2 then .ofNat (v / 65536)
      else if x = a + 1 then .ofNat (v / 256) else if x = a then .ofNat v else m x := by
  simp only [writeWord, writeByte]
  rw [u32_eq (n := a) (by omega), u32_eq (n := a + 1) (by omega), u32_eq (n := a + 2) (by omega),
    u32_eq (n := a + 3) (by omega)]

/-- A stored word is read back. -/
lemma readWord_writeWord {m : Mem} {a v : Nat} (h : a + 4 ≤ 4294967296) (hv : v < 4294967296) :
    readWord (writeWord m a v) a = v := by
  simp only [readWord, writeWord_apply h]
  rw [u32_eq (n := a) (by omega), u32_eq (n := a + 1) (by omega), u32_eq (n := a + 2) (by omega),
    u32_eq (n := a + 3) (by omega)]
  simp
  omega

/-- The bytes after a `memset`. -/
lemma memset_apply {m : Mem} {a n x : Nat} {v : UInt8} (h : a + n ≤ 4294967296) :
    memset m a v n x = if a ≤ x ∧ x < a + n then v else m x := by
  induction n with
  | zero => rw [memset, if_neg (by omega)]
  | succ n ih =>
    rw [memset, writeByte, u32_eq (by omega), ih (by omega)]
    by_cases hx : x = a + n
    · rw [if_pos hx, if_pos (by omega)]
    · rw [if_neg hx]
      congr 1
      simp only [eq_iff_iff]
      omega

/-- An address counts modulo `2 ^ 32`. -/
lemma readWord_u32 {m : Mem} {a k : Nat} : readWord m (u32 a + k) = readWord m (a + k) := by
  have hu : ∀ j, u32 (u32 a + j) = u32 (a + j) := fun j => by
    unfold u32
    omega
  simp only [readWord, hu, Nat.add_assoc]

/-- Where nothing is copied to, nothing changes. -/
lemma memcpy_off {m : Mem} {src dst n x : Nat} (h : ∀ j < n, x ≠ u32 (dst + j)) :
    memcpy m src dst n x = m x := by
  induction n with
  | zero => rfl
  | succ n ih =>
    rw [memcpy, writeByte, if_neg (h n (by omega)), ih fun j hj => h j (by omega)]

/-- A copied byte, when source and destination are disjoint. -/
lemma memcpy_at {m : Mem} {src dst n j : Nat} (hn : n ≤ 4294967296)
    (h : ∀ i < n, ∀ k < n, u32 (src + i) ≠ u32 (dst + k)) (hj : j < n) :
    memcpy m src dst n (u32 (dst + j)) = m (u32 (src + j)) := by
  induction n with
  | zero => omega
  | succ n ih =>
    rw [memcpy, writeByte]
    by_cases hjn : j = n
    · rw [if_pos (by rw [hjn]), hjn]
      exact memcpy_off fun k hk => h n (by omega) k (by omega)
    · have hne : u32 (dst + j) ≠ u32 (dst + n) := by
        unfold u32
        omega
      rw [if_neg hne]
      exact ih (by omega) (fun i hi k hk => h i (by omega) k (by omega)) (by omega)

/-- A copied word. -/
lemma readWord_memcpy {m : Mem} {src dst n j : Nat} (hn : n ≤ 4294967296)
    (h : ∀ i < n, ∀ k < n, u32 (src + i) ≠ u32 (dst + k)) (hj : j + 4 ≤ n) :
    readWord (memcpy m src dst n) (dst + j) = readWord m (src + j) := by
  simp only [readWord, Nat.add_assoc]
  rw [memcpy_at hn h (by omega), memcpy_at hn h (by omega), memcpy_at hn h (by omega),
    memcpy_at hn h (by omega)]

/-! ## Windows -/

/-- `m'` differs from `m` only at addresses of the window `W`. -/
def SameOff (W : Nat → Prop) (m m' : Mem) : Prop := ∀ x, ¬ W x → m' x = m x

/-- The window of the bytes `a ≤ x < b`. -/
def Bytes (a b x : Nat) : Prop := a ≤ x ∧ x < b

variable {W W' : Nat → Prop} {m m' m'' : Mem}

/-- A memory is the same as itself. -/
lemma SameOff.refl (W : Nat → Prop) (m : Mem) : SameOff W m m := fun _ _ => rfl

/-- Two edits off the same addresses are one. -/
lemma SameOff.trans (h : SameOff W m m') (h' : SameOff W m' m'') : SameOff W m m'' :=
  fun x hx => (h' x hx).trans (h x hx)

/-- An edit may be said to touch more than it does. -/
lemma SameOff.mono (h : SameOff W m m') (hW : ∀ x, W x → W' x) : SameOff W' m m' :=
  fun x hx => h x fun hw => hx (hW x hw)

/-- A byte store changes its own address. -/
lemma SameOff.writeByte {a : Nat} {v : UInt8} (ha : a < 4294967296) :
    SameOff (Bytes a (a + 1)) m (writeByte m a v) := by
  intro x hx
  unfold Lib.writeByte
  rw [u32_eq ha, if_neg]
  rintro rfl
  exact hx ⟨le_refl _, by omega⟩

/-- A word store changes its own four addresses. -/
lemma SameOff.writeWord {a v : Nat} (ha : a + 4 ≤ 4294967296) :
    SameOff (Bytes a (a + 4)) m (writeWord m a v) := by
  intro x hx
  have hx' : ¬ (a ≤ x ∧ x < a + 4) := hx
  rw [writeWord_apply ha, if_neg (by omega), if_neg (by omega), if_neg (by omega),
    if_neg (by omega)]

/-- A word store whose address wraps around changes four addresses modulo `2 ^ 32`. -/
lemma SameOff.writeWord_u32 {a v : Nat} (h : ∀ j < 4, W (u32 (a + j))) :
    SameOff W m (Lib.writeWord m a v) := by
  intro x hx
  have hne : ∀ j < 4, x ≠ u32 (a + j) := fun j hj e => hx (e ▸ h j hj)
  unfold Lib.writeWord Lib.writeByte
  rw [if_neg (hne 3 (by decide)), if_neg (hne 2 (by decide)), if_neg (hne 1 (by decide)),
    if_neg (by simpa using hne 0 (by decide))]

/-- A `memset` changes the bytes it fills. -/
lemma SameOff.memset {a n : Nat} {v : UInt8} (ha : a + n ≤ 4294967296) :
    SameOff (Bytes a (a + n)) m (memset m a v n) := by
  intro x hx
  rw [memset_apply ha]
  exact if_neg hx

/-- The same byte store keeps two memories alike off the window. -/
lemma SameOff.both_writeByte {a : Nat} {v : UInt8} (h : SameOff W m m') :
    SameOff W (Lib.writeByte m a v) (Lib.writeByte m' a v) := by
  intro x hx
  unfold Lib.writeByte
  split
  · rfl
  · exact h x hx

/-- The same word store keeps two memories alike off the window. -/
lemma SameOff.both_writeWord {a v : Nat} (h : SameOff W m m') :
    SameOff W (Lib.writeWord m a v) (Lib.writeWord m' a v) :=
  h.both_writeByte.both_writeByte.both_writeByte.both_writeByte

/-- A word whose bytes lie off the window is unchanged. -/
lemma SameOff.readWord {a : Nat} (h : SameOff W m m') (ha : a + 4 ≤ 4294967296)
    (hW : ∀ x, Bytes a (a + 4) x → ¬ W x) : readWord m' a = readWord m a := by
  unfold Lib.readWord
  rw [u32_eq (n := a) (by omega), u32_eq (n := a + 1) (by omega), u32_eq (n := a + 2) (by omega),
    u32_eq (n := a + 3) (by omega)]
  rw [h a (hW _ ⟨by omega, by omega⟩), h (a + 1) (hW _ ⟨by omega, by omega⟩),
    h (a + 2) (hW _ ⟨by omega, by omega⟩), h (a + 3) (hW _ ⟨by omega, by omega⟩)]

/-- A word store leaves a disjoint word alone. -/
lemma readWord_writeWord_ne {a b v : Nat} (ha : a + 4 ≤ 4294967296) (hb : b + 4 ≤ 4294967296)
    (hab : a + 4 ≤ b ∨ b + 4 ≤ a) : readWord (writeWord m a v) b = readWord m b :=
  (SameOff.writeWord ha).readWord hb fun x hx hw => by unfold Bytes at hx hw; omega

/-- A byte store leaves a word that does not hold the byte alone. -/
lemma readWord_writeByte_ne {a b : Nat} {v : UInt8} (ha : a < 4294967296)
    (hb : b + 4 ≤ 4294967296) (hab : a < b ∨ b + 4 ≤ a) :
    readWord (writeByte m a v) b = readWord m b :=
  (SameOff.writeByte ha).readWord hb fun x hx hw => by unfold Bytes at hx hw; omega

end ToeS.Lib
