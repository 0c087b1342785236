import ToeS.Basic

/-!
# The bitset

Model of `kern/ds/bitset.c`: an array of 32-bit words with one bit for each index. `get` is the
abstract view, the set of indices whose bit is set; each operation has one lemma that says what it
does to it. `bitset_refines_set` puts them together for any sequence of calls.
-/

namespace ToeS.Frames
open Lib

/-- `bs_t`: `sz` words of 32 bits. -/
structure BitSet where
  sz : Nat
  bits : Vector (BitVec 32) sz

/-- The number of bits (C `bs_get_size`). -/
def bsGetSize (bs : BitSet) : Nat := u32 (bs.sz * 32)

/-- Words of the array that `bs_init` allocates for `sz` bits; a multiple of 32 gets one more. -/
def bsWords (sz : Nat) : Nat :=
  let rnd := sz % 32
  let bitCnt := u32 (sz + (32 - rnd))
  bitCnt / 32

/-- The number of bits fits in 32 bits. -/
lemma bsWords_lt (sz : Nat) : bsWords sz * 32 < 4294967296 := by
  have := u32_lt (sz + (32 - sz % 32))
  simp only [bsWords]
  omega

/-- The word of a bit in range is one of the array. -/
lemma word_lt {bs : BitSet} {idx : Nat} (h : idx < bsGetSize bs) : idx / 32 < bs.sz := by
  have := u32_le (bs.sz * 32)
  unfold bsGetSize at h
  omega

/-- Set the bit `idx` (C `bs_set`). -/
def bsSet (bs : BitSet) (idx : Nat) : BitSet :=
  if h : idx < bsGetSize bs then
    have hw := word_lt h
    let offset := idx % 32
    { bs with bits := bs.bits.set (idx / 32) (bs.bits[idx / 32] ||| 1#32 <<< offset) }
  else bs

/-- Clear the bit `idx` (C `bs_clr`). -/
def bsClr (bs : BitSet) (idx : Nat) : BitSet :=
  if h : idx < bsGetSize bs then
    have hw := word_lt h
    let offset := idx % 32
    let mask := 0xffffffff#32 ^^^ 1#32 <<< offset
    { bs with bits := bs.bits.set (idx / 32) (bs.bits[idx / 32] &&& mask) }
  else bs

/-- The value of the bit `idx`, 1 out of range (C `bs_tst`). -/
def bsTst (bs : BitSet) (idx : Nat) : Nat :=
  if h : idx < bsGetSize bs then
    have hw := word_lt h
    let offset := idx % 32
    let mask := 1#32 <<< offset
    ((bs.bits[idx / 32] &&& mask) >>> offset).toNat
  else 1

/-- The inner loop of `bs_first_clr`, in word `i` from bit `n` on. -/
def firstClrWord (bs : BitSet) (i : Nat) : Nat → Nat → Option Nat
  | 0, _ => none
  | r + 1, n => if bsTst bs (u32 (i * 32 + n)) = 0 then some (u32 (i * 32 + n))
    else firstClrWord bs i r (n + 1)

/-- The outer loop of `bs_first_clr`, from word `i` on. -/
def firstClrFrom (bs : BitSet) : Nat → Nat → Nat
  | 0, _ => bsGetSize bs
  | r + 1, i => (firstClrWord bs i 32 0).getD (firstClrFrom bs r (i + 1))

/-- The first clear bit, or the size (C `bs_first_clr`). -/
def bsFirstClr (bs : BitSet) : Nat := firstClrFrom bs bs.sz 0

/-! ## The set of indices -/

/-- The bit `idx` is set. -/
def get (bs : BitSet) (idx : Nat) : Bool := (bs.bits[idx / 32]?.getD 0#32).getLsbD (idx % 32)

section
variable {bs : BitSet} {idx j : Nat}

/-- A bit is one of its word. -/
lemma get_eq (h : idx / 32 < bs.sz) : get bs idx = (bs.bits[idx / 32]).getLsbD (idx % 32) := by
  simp [get, h]

/-- The bit that `0x1 << k` picks out of a word. -/
lemma and_twoPow_shift (w : BitVec 32) {k : Nat} (hk : k < 32) :
    ((w &&& 1#32 <<< k) >>> k).toNat = (w.getLsbD k).toNat := by
  have : (w &&& 1#32 <<< k) >>> k = if w.getLsbD k then 1#32 else 0#32 := by
    ext i hi
    simp only [BitVec.getElem_ushiftRight, BitVec.getLsbD_and, BitVec.getLsbD_shiftLeft]
    by_cases hi0 : i = 0
    · subst hi0
      cases w.getLsbD k <;> simp [hk]
    · cases w.getLsbD k <;> simp [hi0]
  rw [this]
  cases w.getLsbD k <;> rfl

/-- `bs_tst` is 1 out of range, and the bit in range. -/
lemma bsTst_eq : bsTst bs idx = if idx < bsGetSize bs then (get bs idx).toNat else 1 := by
  unfold bsTst
  split
  · rename_i h
    rw [get_eq (word_lt h)]
    exact and_twoPow_shift _ (Nat.mod_lt _ (by decide))
  · rfl

/-- In range it tells whether the bit is set. -/
lemma bsTst_eq_one (h : idx < bsGetSize bs) : bsTst bs idx = 1 ↔ get bs idx = true := by
  rw [bsTst_eq, if_pos h]
  cases get bs idx <;> simp

/-- `bs_set` leaves the number of words. -/
@[simp] lemma sz_set : (bsSet bs idx).sz = bs.sz := by
  unfold bsSet
  split <;> rfl

/-- `bs_clr` leaves the number of words. -/
@[simp] lemma sz_clr : (bsClr bs idx).sz = bs.sz := by
  unfold bsClr
  split <;> rfl

/-- `bs_set` leaves the capacity. -/
@[simp] lemma bsGetSize_set : bsGetSize (bsSet bs idx) = bsGetSize bs := by
  rw [bsGetSize, sz_set, bsGetSize]

/-- `bs_clr` leaves the capacity. -/
@[simp] lemma bsGetSize_clr : bsGetSize (bsClr bs idx) = bsGetSize bs := by
  rw [bsGetSize, sz_clr, bsGetSize]

/-- Two indices with the same word and the same place in it are equal. -/
lemma eq_of_div_mod {a b : Nat} (h₁ : a / 32 = b / 32) (h₂ : a % 32 = b % 32) : a = b := by omega

/-- The bits after a store to the word of `idx`. -/
lemma get_store {w : BitVec 32} (hw : idx / 32 < bs.sz) :
    get { bs with bits := bs.bits.set (idx / 32) w } j =
      if j / 32 = idx / 32 then w.getLsbD (j % 32) else get bs j := by
  unfold get
  split_ifs with hj
  · simp only [hj, Vector.getElem?_set_self hw, Option.getD_some]
  · rw [Vector.getElem?_set_ne hw (Ne.symm hj)]

/-- In the word of `idx` its place is that of no other index. -/
lemma mod_eq_iff (hj : j / 32 = idx / 32) : idx % 32 = j % 32 ↔ j = idx :=
  ⟨fun hm => eq_of_div_mod hj hm.symm, fun e => by rw [e]⟩

/-- One bit of a shifted one is set. -/
lemma getLsbD_shift (k : Nat) {n : Nat} (hn : n < 32) : (1#32 <<< k).getLsbD n = decide (k = n) := by
  rw [BitVec.getLsbD_shiftLeft]
  rcases Nat.lt_trichotomy n k with hlt | rfl | hgt
  · simp [hlt, hn]
    omega
  · simp [hn]
  · have hne : n - k ≠ 0 := by omega
    simp [hn, hne, hgt.ne]

/-- `bs_set` sets its bit and no other. -/
lemma get_set (h : idx < bsGetSize bs) : get (bsSet bs idx) j = (get bs j || decide (j = idx)) := by
  have hw := word_lt h
  rw [bsSet, dif_pos h, get_store hw]
  split_ifs with hj
  · rw [BitVec.getLsbD_or, getLsbD_shift _ (Nat.mod_lt _ (by decide)), get_eq (hj ▸ hw)]
    simp only [hj, mod_eq_iff hj]
  · have hne : j ≠ idx := fun e => hj (by rw [e])
    simp [hne]

/-- `bs_clr` clears its bit and no other. -/
lemma get_clr (h : idx < bsGetSize bs) : get (bsClr bs idx) j = (get bs j && !decide (j = idx)) := by
  have hw := word_lt h
  have hk : j % 32 < 32 := Nat.mod_lt _ (by decide)
  rw [bsClr, dif_pos h, get_store hw]
  split_ifs with hj
  · rw [BitVec.getLsbD_and, BitVec.getLsbD_xor, getLsbD_shift _ hk, get_eq (hj ▸ hw),
      show (0xffffffff#32) = BitVec.allOnes 32 from rfl, BitVec.getLsbD_allOnes]
    simp only [hj, mod_eq_iff hj, hk, decide_true, Bool.true_xor]
  · have hne : j ≠ idx := fun e => hj (by rw [e])
    simp [hne]

/-- After `bs_set` the bits that test as 1 are those that did and `idx`. -/
lemma bsTst_set (h : idx < bsGetSize bs) :
    bsTst (bsSet bs idx) j = 1 ↔ j = idx ∨ bsTst bs j = 1 := by
  rw [bsTst_eq, bsTst_eq, bsGetSize_set, get_set h]
  split
  · cases get bs j <;> simp
  · simp

/-- After `bs_clr` the bits that test as 1 are those that did, without `idx`. -/
lemma bsTst_clr (h : idx < bsGetSize bs) :
    bsTst (bsClr bs idx) j = 1 ↔ j ≠ idx ∧ bsTst bs j = 1 := by
  rw [bsTst_eq, bsTst_eq, bsGetSize_clr, get_clr h]
  split
  · cases get bs j <;> simp
  · simp
    omega

/-- A bit that does not test as 1 is in range and clear. -/
lemma bsTst_ne_one : bsTst bs idx ≠ 1 ↔ idx < bsGetSize bs ∧ get bs idx = false := by
  rw [bsTst_eq]
  split
  · cases get bs idx <;> simp [*]
  · simp [*]

/-- What a search over the indices from `a` below the size finds: the first clear one, or none. -/
def FirstClr (bs : BitSet) (a v : Nat) : Prop :=
  (∀ k, a ≤ k → k < v → get bs k = true) ∧ a ≤ v ∧
    (v = bsGetSize bs ∨ v < bsGetSize bs ∧ get bs v = false)

/-- The inner loop finds the first clear bit of the word, if there is one. -/
lemma firstClrWord_spec {i r n : Nat} (hn : n + r = 32) (hi : i < bs.sz)
    (hs : bs.sz * 32 < 4294967296) :
    match firstClrWord bs i r n with
    | some v => FirstClr bs (i * 32 + n) v
    | none => ∀ k, i * 32 + n ≤ k → k < i * 32 + 32 → get bs k = true := by
  have hsize : bsGetSize bs = bs.sz * 32 := u32_eq hs
  induction r generalizing n with
  | zero =>
    rw [firstClrWord]
    intro k h₁ h₂
    omega
  | succ r ih =>
    have ha : i * 32 + n < bsGetSize bs := by omega
    have htst : bsTst bs (i * 32 + n) = (get bs (i * 32 + n)).toNat := by rw [bsTst_eq, if_pos ha]
    rw [firstClrWord, u32_eq (by omega), htst]
    cases hg : get bs (i * 32 + n) with
    | false =>
      rw [Bool.toNat_false, if_pos rfl]
      exact ⟨fun k h₁ h₂ => by omega, le_refl _, .inr ⟨by omega, hg⟩⟩
    | true =>
      rw [Bool.toNat_true, if_neg (by decide)]
      have ih := ih (n := n + 1) (by omega)
      have hstep : ∀ {k}, i * 32 + n ≤ k → k = i * 32 + n ∨ i * 32 + (n + 1) ≤ k := by omega
      cases hw : firstClrWord bs i r (n + 1) with
      | some v =>
        rw [hw] at ih
        obtain ⟨h₁, h₂, h₃⟩ := ih
        refine ⟨fun k hk hv => ?_, by omega, h₃⟩
        rcases hstep hk with rfl | hk
        · exact hg
        · exact h₁ k hk hv
      | none =>
        rw [hw] at ih
        intro k hk hv
        rcases hstep hk with rfl | hk
        · exact hg
        · exact ih k hk hv

/-- The words from one on are searched for a clear bit. -/
lemma firstClrFrom_spec {r i : Nat} (hr : i + r = bs.sz) (hs : bs.sz * 32 < 4294967296) :
    FirstClr bs (i * 32) (firstClrFrom bs r i) := by
  have hsize : bsGetSize bs = bs.sz * 32 := u32_eq hs
  induction r generalizing i with
  | zero =>
    rw [firstClrFrom]
    exact ⟨fun k h₁ h₂ => by omega, by omega, .inl rfl⟩
  | succ r ih =>
    have hw := firstClrWord_spec (i := i) (r := 32) (n := 0) rfl (by omega) hs
    rw [firstClrFrom]
    cases hf : firstClrWord bs i 32 0 with
    | some v =>
      rw [hf] at hw
      exact hw
    | none =>
      rw [hf] at hw
      obtain ⟨h₁, h₂, h₃⟩ := ih (i := i + 1) (by omega)
      refine ⟨fun k hk hv => ?_, by rw [Option.getD_none]; omega, h₃⟩
      by_cases hlt : k < i * 32 + 32
      · exact hw k (by omega) hlt
      · exact h₁ k (by omega) hv

/-- `bs_first_clr` returns the first clear index, or the size. -/
lemma bsFirstClr_spec (hs : bs.sz * 32 < 4294967296) : FirstClr bs 0 (bsFirstClr bs) := by
  have := firstClrFrom_spec (i := 0) (Nat.zero_add _) hs
  rwa [Nat.zero_mul] at this

end

/-! ## Runs of calls -/

/-- A call that changes the bitset. -/
inductive BitCall where
  | set (idx : Nat)
  | clr (idx : Nat)
  deriving DecidableEq, Repr

/-- The index that a call is made on. -/
def BitCall.idx : BitCall → Nat
  | set idx => idx
  | clr idx => idx

/-- The value that a call gives to its bit. -/
def BitCall.value : BitCall → Bool
  | set _ => true
  | clr _ => false

/-- Make a call. -/
def bitStep (bs : BitSet) : BitCall → BitSet
  | .set idx => bsSet bs idx
  | .clr idx => bsClr bs idx

/-- The bitset after the calls of a list. -/
def bitRun (bs : BitSet) (calls : List BitCall) : BitSet := calls.foldl bitStep bs

/-- The value that the last call on `i` gives to it, if there is such a call. -/
def lastOn (i : Nat) (calls : List BitCall) : Option Bool :=
  (calls.reverse.find? (·.idx = i)).map BitCall.value

section
variable {bs : BitSet} {c : BitCall} {calls : List BitCall} {i : Nat}

/-- No call changes the number of words. -/
@[simp] lemma sz_bitStep : (bitStep bs c).sz = bs.sz := by
  cases c with
  | set idx => exact sz_set
  | clr idx => exact sz_clr

/-- A call out of range changes nothing. -/
lemma bitStep_eq_self (h : bsGetSize bs ≤ c.idx) : bitStep bs c = bs := by
  cases c with
  | set idx => exact dif_neg (Nat.not_lt.mpr h)
  | clr idx => exact dif_neg (Nat.not_lt.mpr h)

/-- A call gives its value to its own bit, and no other bit changes. -/
lemma get_bitStep (h : i < bsGetSize bs) :
    get (bitStep bs c) i = if c.idx = i then c.value else get bs i := by
  by_cases hc : c.idx < bsGetSize bs
  · cases c with
    | set idx =>
      rw [bitStep, get_set (show idx < bsGetSize bs from hc)]
      by_cases he : i = idx <;> simp [he, BitCall.idx, BitCall.value, eq_comm (a := idx)]
    | clr idx =>
      rw [bitStep, get_clr (show idx < bsGetSize bs from hc)]
      by_cases he : i = idx <;> simp [he, BitCall.idx, BitCall.value, eq_comm (a := idx)]
  · rw [bitStep_eq_self (Nat.not_lt.mp hc), if_neg (by omega)]

/-- The last call of a run is made last. -/
lemma bitRun_snoc : bitRun bs (calls ++ [c]) = bitStep (bitRun bs calls) c := List.foldl_concat ..

/-- The last call decides about its bit. -/
lemma lastOn_snoc :
    lastOn i (calls ++ [c]) = if c.idx = i then some c.value else lastOn i calls := by
  unfold lastOn
  rw [List.reverse_concat, List.find?_cons]
  by_cases he : c.idx = i <;> simp [he]

/-- A run does not change the number of words. -/
lemma sz_bitRun : (bitRun bs calls).sz = bs.sz := by
  induction calls using List.reverseRecOn with
  | nil => rfl
  | append_singleton calls c ih => rw [bitRun_snoc, sz_bitStep, ih]

/-- A run does not change the capacity. -/
lemma bsGetSize_bitRun : bsGetSize (bitRun bs calls) = bsGetSize bs := by
  rw [bsGetSize, sz_bitRun, bsGetSize]

/-- After any calls a bit has the value that the last call on it gave to it. -/
lemma get_bitRun (h : i < bsGetSize bs) :
    get (bitRun bs calls) i = (lastOn i calls).getD (get bs i) := by
  induction calls using List.reverseRecOn with
  | nil => rfl
  | append_singleton calls c ih =>
    rw [bitRun_snoc, get_bitStep (by rwa [bsGetSize_bitRun]), lastOn_snoc, ih]
    split <;> rfl

/-- In a search over all indices what `bs_first_clr` returns is said in terms of `bs_tst`. -/
lemma FirstClr.least {v : Nat} (h : FirstClr bs 0 v) :
    (∀ k < v, bsTst bs k = 1) ∧ (v < bsGetSize bs ∧ bsTst bs v = 0 ∨ v = bsGetSize bs) := by
  obtain ⟨hbelow, -, hv⟩ := h
  have hle : v ≤ bsGetSize bs := by omega
  refine ⟨fun k hk => (bsTst_eq_one (by omega)).mpr (hbelow k (Nat.zero_le k) hk), ?_⟩
  rcases hv with hv | ⟨hv, hclr⟩
  · exact .inr hv
  · exact .inl ⟨hv, by rw [bsTst_eq, if_pos hv, hclr, Bool.toNat_false]⟩

end

/-- The bitset is a set of indices: `bs_set` and `bs_clr` put an index in and take it out, `bs_tst`
asks for it, and `bs_first_clr` finds the least index that is not in the set. -/
theorem bitset_refines_set (bs : BitSet) (hs : bs.sz ≤ 2 ^ 27 - 1) (calls : List BitCall) :
    (∀ i < 32 * bs.sz,
      bsTst (bitRun bs calls) i = if (lastOn i calls).getD (get bs i) then 1 else 0) ∧
    (∀ c : BitCall, 32 * bs.sz ≤ c.idx → bitStep (bitRun bs calls) c = bitRun bs calls) ∧
    (∀ i, 32 * bs.sz ≤ i → bsTst (bitRun bs calls) i = 1) ∧
    (∀ i < bsFirstClr (bitRun bs calls), bsTst (bitRun bs calls) i = 1) ∧
    (bsFirstClr (bitRun bs calls) < 32 * bs.sz ∧
        bsTst (bitRun bs calls) (bsFirstClr (bitRun bs calls)) = 0 ∨
      bsFirstClr (bitRun bs calls) = 32 * bs.sz) := by
  have hsize : bsGetSize bs = 32 * bs.sz := by
    rw [bsGetSize, u32_eq (by omega), Nat.mul_comm]
  have hrun : bsGetSize (bitRun bs calls) = 32 * bs.sz := by rw [bsGetSize_bitRun, hsize]
  have hsmall : (bitRun bs calls).sz * 32 < 4294967296 := by
    rw [sz_bitRun]
    omega
  have hfirst := (bsFirstClr_spec hsmall).least
  rw [hrun] at hfirst
  refine ⟨fun i hi => ?_, fun c hc => bitStep_eq_self (by rwa [hrun]), fun i hi => ?_, hfirst⟩
  · rw [bsTst_eq, if_pos (by rwa [hrun]), get_bitRun (by rwa [hsize])]
    cases (lastOn i calls).getD (get bs i) <;> rfl
  · rw [bsTst_eq, if_neg (by omega)]

/-- Two words; bit 31 of the first one is set, cleared and set again. -/
theorem bitset_refines_set_bit31 :
    (⟨2, #v[0x7fffffff#32, 0#32]⟩ : BitSet).sz ≤ 2 ^ 27 - 1 ∧
    bsTst (bitRun ⟨2, #v[0x7fffffff#32, 0#32]⟩ [.set 31, .clr 31, .set 31]) 31 = 1 ∧
    bsTst (bitRun ⟨2, #v[0x7fffffff#32, 0#32]⟩ [.set 31, .clr 31, .set 31]) 40 = 0 ∧
    bsTst (bitRun ⟨2, #v[0x7fffffff#32, 0#32]⟩ [.set 31, .clr 31, .set 31]) 64 = 1 := by
  have h := bitset_refines_set ⟨2, #v[0x7fffffff#32, 0#32]⟩ (by decide)
    [.set 31, .clr 31, .set 31]
  exact ⟨by decide, (h.1 31 (by decide)).trans (by decide), (h.1 40 (by decide)).trans (by decide),
    h.2.2.1 64 (by decide)⟩

end ToeS.Frames
