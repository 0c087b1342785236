import ToeS.Boot.Defs

/-!
# `pmm_init` and the multiboot memory map

Model of `pmm_init` (`kern/mm/pmm.c`), which walks the memory map that the boot loader left
(`kern/inc/multiboot.h`) and marks the frames of the reserved entries. The walk is over the bytes of
the map; `MapAt` says that they are a list of entries, one behind the other. The bits that the new
bitset starts with are a parameter, because `bs_init` does not write them.

`pmmInit_spec` says which frames are marked: those that a step of one page at a time from the first
byte of a region comes to, with the address cut to 32 bits. Compared with the frames that hold a
byte of a reserved region (`Holds`), these steps miss the last frame of a region that begins late in
its first frame, and they come back to low frames when a region goes beyond 4 GiB.
-/

namespace ToeS.Boot
open Lib Frames

/-! ## The memory map -/

/-- The fields of `multiboot_t` that `pmm_init` reads. -/
structure Multiboot where
  memLower : Nat
  memUpper : Nat
  mmapLength : Nat
  mmapAddr : Nat

/-- `mboot_memmap_t`. -/
structure MbootMemmap where
  size : Nat
  baseAddr : Nat
  length : Nat
  type : Nat

/-- A `uint64_t` value. -/
def u64 (n : Nat) : Nat := n % 18446744073709551616

/-- Load the little-endian `uint64_t` at `a`. -/
def readQuad (m : Mem) (a : Nat) : Nat := readWord m a + 4294967296 * readWord m (a + 4)

/-- The packed structure at `mmap`. -/
def readMemmap (m : Mem) (mmap : Nat) : MbootMemmap where
  size := readWord m mmap
  baseAddr := readQuad m (mmap + 4)
  length := readQuad m (mmap + 12)
  type := readWord m (mmap + 20)

/-! ## `pmm_init` -/

/-- Page steps after which `i` is back at 0, and one more. -/
def regionFuel : Nat := 4503599627370497

/-- The inner loop of `pmm_init`, from `i` on. `addr` has 32 bits, so the `break` is never taken. -/
def markRegion (e : MbootMemmap) : Nat → Nat → BitSet → Except Fault BitSet
  | 0, _, _ => .error .diverges
  | n + 1, i, frames =>
    if i < e.length then
      let addr := u32 (e.baseAddr + i)
      if addr > 0xffffffff then .ok frames
      else markRegion e n (u64 (i + pgSz)) (bsSet frames ((addr &&& 0xfffff000) / pgSz))
    else .ok frames

/-- What `pmm_init` does with an entry. -/
def markEntry (e : MbootMemmap) (frames : BitSet) : Except Fault BitSet :=
  if e.type = 2 then markRegion e regionFuel 0 frames else .ok frames

/-- The outer loop of `pmm_init`, from the entry at `mmap` on. -/
def mmapLoop (m : Mem) (stop : Nat) : Nat → Nat → BitSet → Except Fault BitSet
  | 0, _, _ => .error .diverges
  | n + 1, mmap, frames =>
    if mmap < stop then do
      let e := readMemmap m mmap
      let frames ← markEntry e frames
      mmapLoop m stop n (u32 (mmap + e.size + 4)) frames
    else .ok frames

namespace Multiboot

/-- The number of frames that `pmm_init` asks `bs_init` for. -/
def frameCnt (mb : Multiboot) : Nat := u32 (mb.memUpper + mb.memLower) / 4

end Multiboot

/-- C `pmm_init`; `bits` is what the memory of the new bitset holds. -/
def pmmInit (m : Mem) (mb : Multiboot) (bits : Vector (BitVec 32) (bsWords mb.frameCnt)) :
    Except Fault BitSet :=
  mmapLoop m (u32 (p2v mb.mmapAddr + mb.mmapLength)) chainFuel (p2v mb.mmapAddr) ⟨_, bits⟩

/-! ## Well-formed maps -/

/-- The entries `es` lie one behind the other from `a` to `stop`. -/
def Laid (m : Mem) (stop : Nat) : Nat → List MbootMemmap → Prop
  | a, [] => a = stop
  | a, e :: es => readMemmap m a = e ∧ 20 ≤ e.size ∧ Laid m stop (a + e.size + 4) es

/-- The memory map is `es`, and ends below the end of the address space. -/
structure MapAt (m : Mem) (mb : Multiboot) (es : List MbootMemmap) : Prop where
  laid : Laid m (p2v mb.mmapAddr + mb.mmapLength) (p2v mb.mmapAddr) es
  fits : p2v mb.mmapAddr + mb.mmapLength < 4294967296

/-- The frame `f` holds a byte of the reserved region `e`. -/
def MbootMemmap.Holds (e : MbootMemmap) (f : Nat) : Prop :=
  e.type = 2 ∧ ∃ x, e.baseAddr ≤ x ∧ x < e.baseAddr + e.length ∧ x / 4096 = f

/-- A page step from the start of the reserved region `e` comes to the frame `f`. -/
def MbootMemmap.Steps (e : MbootMemmap) (f : Nat) : Prop :=
  e.type = 2 ∧ ∃ k, 4096 * k < e.length ∧ u32 (e.baseAddr + 4096 * k) / 4096 = f

/-! ## What `pmm_init` marks -/

section
variable {e : MbootMemmap} {bs : BitSet} {m : Mem} {stop : Nat}

/-- `bs_set` adds its bit if that is in range. -/
lemma get_bsSet {idx f : Nat} :
    get (bsSet bs idx) f = true ↔ get bs f = true ∨ f = idx ∧ idx < bsGetSize bs := by
  by_cases h : idx < bsGetSize bs
  · rw [get_set h]
    simp [h]
  · rw [bsSet, dif_neg h]
    simp [h]

/-- The frame of a step. -/
lemma step_frame (i : Nat) :
    (u32 (e.baseAddr + i) &&& 0xfffff000) / pgSz = u32 (e.baseAddr + i) / 4096 := by
  rw [and_frame (u32_lt _), pgSz_eq, Nat.mul_div_cancel _ (by decide)]

/-- A region of at most `2 ^ 64 - 4096` bytes is stepped through to its end. -/
lemma markRegion_spec {n i : Nat} (bs : BitSet) (hlen : e.length ≤ 18446744073709547520)
    (hn : e.length ≤ i + 4096 * n) :
    ∃ bs', markRegion e (n + 1) i bs = .ok bs' ∧ bs'.sz = bs.sz ∧
      ∀ f, get bs' f = true ↔ get bs f = true ∨
        f < bsGetSize bs ∧ ∃ k, i + 4096 * k < e.length ∧ u32 (e.baseAddr + (i + 4096 * k)) / 4096 = f := by
  induction n generalizing i bs with
  | zero =>
    refine ⟨bs, by rw [markRegion, if_neg (by omega)], rfl, fun f => (or_iff_left ?_).symm⟩
    rintro ⟨-, k, hk, -⟩
    omega
  | succ n ih =>
    by_cases hi : i < e.length
    · have hu : u64 (i + pgSz) = i + 4096 := by
        rw [u64, pgSz_eq, Nat.mod_eq_of_lt (by omega)]
      have ha : ¬ u32 (e.baseAddr + i) > 0xffffffff := by
        have := u32_lt (e.baseAddr + i)
        omega
      obtain ⟨bs', hrun, hsz, hget⟩ := ih (i := i + 4096) (bsSet bs (u32 (e.baseAddr + i) / 4096))
        (by omega)
      refine ⟨bs', ?_, by rw [hsz, sz_set], fun f => ?_⟩
      · rw [markRegion, if_pos hi]
        simp only [if_neg ha, step_frame, hu]
        exact hrun
      · rw [hget, get_bsSet, bsGetSize_set, or_assoc]
        refine or_congr_right ⟨?_, ?_⟩
        · rintro (⟨rfl, hlt⟩ | ⟨hlt, k, hk, hf⟩)
          · exact ⟨hlt, 0, by omega, by simp⟩
          · have hx : i + 4096 * (k + 1) = i + 4096 + 4096 * k := by omega
            exact ⟨hlt, k + 1, by omega, by rw [hx, hf]⟩
        · rintro ⟨hlt, k, hk, hf⟩
          cases k with
          | zero =>
            left
            rw [Nat.mul_zero, Nat.add_zero] at hf
            exact ⟨hf.symm, hf ▸ hlt⟩
          | succ k =>
            have hx : i + 4096 * (k + 1) = i + 4096 + 4096 * k := by omega
            exact .inr ⟨hlt, k, by omega, by rw [← hx, hf]⟩
    · refine ⟨bs, by rw [markRegion, if_neg hi], rfl, fun f => (or_iff_left ?_).symm⟩
      rintro ⟨-, k, hk, -⟩
      omega

/-- In a longer region `i` wraps around before it reaches the end. -/
lemma markRegion_diverges {n i : Nat} (hlen : 18446744073709547520 < e.length) (hi : i % 4096 = 0)
    (hi' : i < 18446744073709551616) : markRegion e n i bs = .error .diverges := by
  induction n generalizing i bs with
  | zero => rfl
  | succ n ih =>
    have ha : ¬ u32 (e.baseAddr + i) > 0xffffffff := by
      have := u32_lt (e.baseAddr + i)
      omega
    rw [markRegion, if_pos (by omega)]
    simp only [if_neg ha]
    refine ih ?_ ?_
    · rw [u64, pgSz_eq]
      omega
    · exact Nat.mod_lt _ (by decide)

/-- One entry of the map. -/
lemma markEntry_spec (bs : BitSet) (hlen : e.type = 2 → e.length ≤ 18446744073709547520) :
    ∃ bs', markEntry e bs = .ok bs' ∧ bs'.sz = bs.sz ∧
      ∀ f, get bs' f = true ↔ get bs f = true ∨ f < bsGetSize bs ∧ e.Steps f := by
  by_cases ht : e.type = 2
  · have hn : e.length ≤ 0 + 4096 * 4503599627370496 := by have := hlen ht; omega
    obtain ⟨bs', hrun, hsz, hget⟩ := markRegion_spec bs (hlen ht) hn
    refine ⟨bs', by rw [markEntry, if_pos ht]; exact hrun, hsz, fun f => ?_⟩
    rw [hget]
    simp only [Nat.zero_add, MbootMemmap.Steps, ht, true_and]
  · refine ⟨bs, by rw [markEntry, if_neg ht], rfl, fun f => (or_iff_left ?_).symm⟩
    rintro ⟨-, h, -⟩
    exact ht h

/-- The entries of a map take 24 bytes each. -/
lemma Laid.le {a : Nat} {es : List MbootMemmap} (hl : Laid m stop a es) :
    a + 24 * es.length ≤ stop := by
  induction es generalizing a with
  | nil => exact le_of_eq hl
  | cons e es ih =>
    have := ih hl.2.2
    have := hl.2.1
    rw [List.length_cons]
    omega

/-- The walk over a well-formed map takes its entries one after the other. -/
lemma mmapLoop_cons {n a : Nat} {es : List MbootMemmap} (hl : Laid m stop a (e :: es))
    (hstop : stop < 4294967296) :
    mmapLoop m stop (n + 1) a bs = markEntry e bs >>= mmapLoop m stop n (a + e.size + 4) := by
  obtain ⟨rfl, -, hl⟩ := hl
  have := hl.le
  rw [mmapLoop, if_pos (by omega)]
  simp only [u32_eq (n := a + (readMemmap m a).size + 4) (by omega)]

/-- The loop does nothing without an entry. -/
lemma mmapLoop_nil {n a : Nat} (hl : Laid m stop a []) : mmapLoop m stop (n + 1) a bs = .ok bs := by
  have ha : a = stop := hl
  rw [mmapLoop, if_neg (by omega)]

/-- The loop marks the frames that the reserved entries step on. -/
lemma mmapLoop_spec {n a : Nat} {es : List MbootMemmap} (bs : BitSet) (hl : Laid m stop a es)
    (hstop : stop < 4294967296) (hn : es.length ≤ n)
    (hlen : ∀ e ∈ es, e.type = 2 → e.length ≤ 18446744073709547520) :
    ∃ bs', mmapLoop m stop (n + 1) a bs = .ok bs' ∧ bs'.sz = bs.sz ∧
      ∀ f, get bs' f = true ↔ get bs f = true ∨ f < bsGetSize bs ∧ ∃ e ∈ es, e.Steps f := by
  induction es generalizing n a bs with
  | nil => exact ⟨bs, mmapLoop_nil hl, rfl, fun f => by simp⟩
  | cons e es ih =>
    obtain ⟨n, rfl⟩ := Nat.exists_eq_succ_of_ne_zero (Nat.ne_zero_of_lt hn)
    obtain ⟨bs₁, hrun₁, hsz₁, hget₁⟩ := markEntry_spec bs (hlen e (by simp))
    obtain ⟨bs', hrun, hsz', hget⟩ := ih (n := n) bs₁ hl.2.2
      (Nat.le_of_succ_le_succ hn) fun e he => hlen e (List.mem_cons_of_mem _ he)
    refine ⟨bs', ?_, hsz'.trans hsz₁, fun f => ?_⟩
    · rw [mmapLoop_cons hl hstop, hrun₁]
      exact hrun
    · have hsize : bsGetSize bs₁ = bsGetSize bs := by rw [bsGetSize, hsz₁, bsGetSize]
      rw [hget, hget₁, hsize]
      simp only [List.mem_cons, exists_eq_or_imp]
      tauto

/-- One region that is too long, and the walk never ends. -/
lemma mmapLoop_diverges {n a : Nat} {es : List MbootMemmap} (hl : Laid m stop a es)
    (hstop : stop < 4294967296) (he : e ∈ es) (ht : e.type = 2)
    (hlen : 18446744073709547520 < e.length) : mmapLoop m stop n a bs = .error .diverges := by
  induction es generalizing n a bs with
  | nil => cases he
  | cons e' es ih =>
    cases n with
    | zero => rfl
    | succ n =>
      rw [mmapLoop_cons hl hstop]
      have hstuck : ∀ {e : MbootMemmap}, e.type = 2 → 18446744073709547520 < e.length →
          markEntry e bs = .error .diverges := fun ht hlen => by
        rw [markEntry, if_pos ht]
        exact markRegion_diverges hlen rfl (by decide)
      by_cases hlong : e'.type = 2 ∧ 18446744073709547520 < e'.length
      · rw [hstuck hlong.1 hlong.2]
        rfl
      · have he' : e ∈ es := by
          refine (List.mem_cons.mp he).resolve_left ?_
          rintro rfl
          exact hlong ⟨ht, hlen⟩
        obtain ⟨bs₁, hrun₁, -⟩ := markEntry_spec (e := e') bs fun h => by
          by_contra hlt
          exact hlong ⟨h, by omega⟩
        rw [hrun₁]
        exact ih hl.2.2 he'

end

section
variable {m : Mem} {mb : Multiboot} {es : List MbootMemmap}
  {bits : Vector (BitVec 32) (bsWords mb.frameCnt)}

/-- `pmm_init` marks the frames that the page steps through the reserved regions come to. -/
theorem pmmInit_spec (bits : Vector (BitVec 32) (bsWords mb.frameCnt)) (hm : MapAt m mb es)
    (hlen : ∀ e ∈ es, e.type = 2 → e.length ≤ 18446744073709547520) :
    ∃ bs', pmmInit m mb bits = .ok bs' ∧ bs'.sz = bsWords mb.frameCnt ∧
      ∀ f, get bs' f = true ↔ get ⟨_, bits⟩ f = true ∨
        f < bsGetSize ⟨_, bits⟩ ∧ ∃ e ∈ es, e.Steps f := by
  have hle := hm.laid.le
  have hfits := hm.fits
  have hn : es.length ≤ 4294967295 := by omega
  obtain ⟨bs', hrun, h⟩ := mmapLoop_spec ⟨_, bits⟩ hm.laid hfits hn hlen
  refine ⟨bs', ?_, h⟩
  rw [pmmInit, u32_eq hfits]
  exact hrun

/-- With a reserved region of more than `2 ^ 64 - 4096` bytes it does not return. -/
theorem pmmInit_diverges {e : MbootMemmap} (hm : MapAt m mb es) (he : e ∈ es) (ht : e.type = 2)
    (hlen : 18446744073709547520 < e.length) : pmmInit m mb bits = .error .diverges := by
  rw [pmmInit, u32_eq hm.fits]
  exact mmapLoop_diverges hm.laid hm.fits he ht hlen

end

/-! ## Maps and bitsets that are written out -/

/-- A bitset without marks. -/
def clearBits (n : Nat) : Vector (BitVec 32) n := Vector.replicate n 0#32

/-- No bit is set at first. -/
lemma get_clearBits (n f : Nat) : get ⟨n, clearBits n⟩ f = false := by
  unfold Frames.get clearBits
  rw [Vector.getElem?_replicate]
  split <;> simp

/-- Store the little-endian `uint64_t` `v` at `a`. -/
def writeQuad (m : Mem) (a v : Nat) : Mem :=
  writeWord (writeWord m a (v % 4294967296)) (a + 4) (v / 4294967296)

/-- Store an entry at `a`. -/
def writeMemmap (m : Mem) (a : Nat) (e : MbootMemmap) : Mem :=
  writeWord (writeQuad (writeQuad (writeWord m a e.size) (a + 4) e.baseAddr) (a + 12) e.length)
    (a + 20) e.type

/-- An entry that has been written is read back. -/
lemma readMemmap_writeMemmap {m : Mem} {a : Nat} {e : MbootMemmap} (ha : a + 24 ≤ 4294967296)
    (hs : e.size < 4294967296) (hb : e.baseAddr < 18446744073709551616)
    (hl : e.length < 18446744073709551616) (ht : e.type < 4294967296) :
    readMemmap (writeMemmap m a e) a = e := by
  have hq : ∀ v, v % 4294967296 + 4294967296 * (v / 4294967296) = v := fun v => Nat.mod_add_div v _
  obtain ⟨size, base, length, type⟩ := e
  simp only at hs hb hl ht
  simp (disch := omega) only [readMemmap, writeMemmap, readQuad, writeQuad, Nat.add_assoc,
    Nat.reduceAdd, readWord_writeWord, readWord_writeWord_ne, hq]

/-- A map of one entry. -/
lemma mapAt_single {m : Mem} {a lower upper : Nat} {e : MbootMemmap} (he : readMemmap m (p2v a) = e)
    (hs : e.size = 20) (hf : p2v a + 24 < 4294967296) : MapAt m ⟨lower, upper, 24, a⟩ [e] := by
  refine ⟨⟨he, hs.ge, ?_⟩, hf⟩
  show p2v a + e.size + 4 = p2v a + 24
  omega

/-! ## Reserved memory is used -/

section
variable {e : MbootMemmap} {f : Nat}

/-- The frames with a byte of a region are those between its first and its last byte. -/
lemma holds_iff : e.Holds f ↔ e.type = 2 ∧ 0 < e.length ∧ e.baseAddr / 4096 ≤ f ∧
    f ≤ (e.baseAddr + e.length - 1) / 4096 := by
  refine and_congr_right fun _ => ⟨?_, ?_⟩
  · rintro ⟨x, h₁, h₂, rfl⟩
    exact ⟨by omega, by omega, by omega⟩
  · rintro ⟨hlen, h₁, h₂⟩
    by_cases hb : e.baseAddr / 4096 = f
    · exact ⟨e.baseAddr, by omega, by omega, hb⟩
    · exact ⟨4096 * f, by omega, by omega, by omega⟩

/-- Below 4 GiB the steps come to a run of frames that need not reach the last one. -/
lemma steps_iff (h32 : e.baseAddr + e.length ≤ 4294967296) :
    e.Steps f ↔ e.type = 2 ∧ 0 < e.length ∧ e.baseAddr / 4096 ≤ f ∧
      f ≤ e.baseAddr / 4096 + (e.length - 1) / 4096 := by
  refine and_congr_right fun _ => ⟨?_, ?_⟩
  · rintro ⟨k, hk, rfl⟩
    rw [u32_eq (by omega)]
    exact ⟨by omega, by omega, by omega⟩
  · rintro ⟨hlen, h₁, h₂⟩
    refine ⟨f - e.baseAddr / 4096, by omega, ?_⟩
    rw [u32_eq (by omega)]
    omega

end

/-- Every frame of the bitset with a byte of a reserved region is marked. -/
def ReservedUsed (es : List MbootMemmap) (bs : BitSet) : Prop :=
  ∀ f < bsGetSize bs, (∃ e ∈ es, e.Holds f) → get bs f = true

/-- A region that begins so late in its first frame that the last page step does not come to its last
frame. -/
def MbootMemmap.Overhangs (e : MbootMemmap) : Prop :=
  e.type = 2 ∧ 4096 ≤ e.baseAddr % 4096 + (e.length - 1) % 4096

/-- The last frame of every region that overhangs is out of range, marked to begin with, or among the
steps of another region. -/
def TailsCovered (es : List MbootMemmap) (bs : BitSet) : Prop :=
  ∀ e ∈ es, e.Overhangs →
    let last := (e.baseAddr + e.length - 1) / 4096
    bsGetSize bs ≤ last ∨ get bs last = true ∨ ∃ e' ∈ es, e'.type = 2 ∧ 0 < e'.length ∧
      e'.baseAddr / 4096 ≤ last ∧ last ≤ e'.baseAddr / 4096 + (e'.length - 1) / 4096

section
variable {m : Mem} {mb : Multiboot} {es : List MbootMemmap}
  {bits : Vector (BitVec 32) (bsWords mb.frameCnt)}

/-- With all regions below 4 GiB, `pmm_init` marks every frame that has a reserved byte exactly when no
region overhangs into a frame that nothing else marks. -/
theorem reservedUsed_iff (hm : MapAt m mb es)
    (h32 : ∀ e ∈ es, e.type = 2 → e.baseAddr + e.length ≤ 4294967296) :
    ∃ bs', pmmInit m mb bits = .ok bs' ∧ (ReservedUsed es bs' ↔ TailsCovered es ⟨_, bits⟩) := by
  obtain ⟨bs', hrun, hsz, hget⟩ := pmmInit_spec bits hm fun e he ht => by
    have := h32 e he ht
    omega
  have hsize : bsGetSize bs' = bsGetSize ⟨_, bits⟩ := by rw [bsGetSize, hsz, bsGetSize]
  refine ⟨bs', hrun, fun h e he hover => ?_, fun h f hf => ?_⟩
  · intro last
    obtain ⟨ht, hover⟩ := hover
    have := h32 e he ht
    by_cases hlt : last < bsGetSize ⟨_, bits⟩
    · right
      have hlast : e.Holds last := holds_iff.mpr ⟨ht, by omega, by omega, le_rfl⟩
      rcases (hget last).mp (h last (hsize ▸ hlt) ⟨e, he, hlast⟩) with h | ⟨-, e', he', hs⟩
      · exact .inl h
      · exact .inr ⟨e', he', (steps_iff (h32 e' he' hs.1)).mp hs⟩
    · exact .inl (not_lt.mp hlt)
  · rintro ⟨e, he, hh⟩
    rw [hget]
    obtain ⟨ht, hlen, h₁, h₂⟩ := holds_iff.mp hh
    have hb := h32 e he ht
    by_cases hs : f ≤ e.baseAddr / 4096 + (e.length - 1) / 4096
    · exact .inr ⟨hsize ▸ hf, e, he, (steps_iff hb).mpr ⟨ht, hlen, h₁, hs⟩⟩
    · -- past the last step there is the last frame only
      have hlast : (e.baseAddr + e.length - 1) / 4096 = f := by omega
      have hover : e.Overhangs := ⟨ht, by omega⟩
      have htail := h e he hover
      simp only [hlast] at htail
      rcases htail with h | h | ⟨e', he', hs⟩
      · omega
      · exact .inl h
      · exact .inr ⟨hsize ▸ hf, e', he', (steps_iff (h32 e' he' hs.1)).mpr hs⟩

/-- A machine with 16 MiB whose reserved region is 4 KiB long and begins in the middle of a frame. -/
lemma mapAt_overhang : MapAt (writeMemmap (fun _ => 0) (p2v 4096) ⟨20, 653312, 4096, 2⟩)
    ⟨640, 15360, 24, 4096⟩ [⟨20, 653312, 4096, 2⟩] := by
  refine mapAt_single (readMemmap_writeMemmap ?_ ?_ ?_ ?_ ?_) rfl ?_ <;> decide

/-- A region that begins in the middle of a frame. -/
theorem reservedUsed_iff_overhang :
    ∃ bs', pmmInit (writeMemmap (fun _ => 0) (p2v 4096) ⟨20, 653312, 4096, 2⟩) ⟨640, 15360, 24, 4096⟩
        (clearBits _) = .ok bs' ∧
      (ReservedUsed [⟨20, 653312, 4096, 2⟩] bs' ↔
        TailsCovered [⟨20, 653312, 4096, 2⟩] ⟨_, clearBits (bsWords 4000)⟩) :=
  reservedUsed_iff mapAt_overhang fun e he _ => by
    rw [List.mem_singleton.mp he]
    decide

/-- Frame 160 holds the second half of the region and is not marked. -/
theorem not_reservedUsed_overhang :
    ∃ bs', pmmInit (writeMemmap (fun _ => 0) (p2v 4096) ⟨20, 653312, 4096, 2⟩) ⟨640, 15360, 24, 4096⟩
        (clearBits _) = .ok bs' ∧ ¬ ReservedUsed [⟨20, 653312, 4096, 2⟩] bs' := by
  obtain ⟨bs', hrun, hsz, hget⟩ := pmmInit_spec (clearBits _) mapAt_overhang fun e he _ => by
    rw [List.mem_singleton.mp he]
    decide
  refine ⟨bs', hrun, fun h => ?_⟩
  have hsize : 160 < bsGetSize bs' := by
    rw [bsGetSize, hsz]
    decide
  have hset := h 160 hsize ⟨_, List.mem_singleton_self _, holds_iff.mpr (by decide)⟩
  rcases (hget 160).mp hset with h | ⟨-, e, he, hs⟩
  · rw [get_clearBits] at h
    cases h
  · rw [List.mem_singleton.mp he] at hs
    have := ((steps_iff (by decide)).mp hs).2.2.2
    revert this
    decide

end

/-! ## Nothing else is used -/

/-- Every marked frame of the bitset has a byte of a reserved region. -/
def OnlyReserved (es : List MbootMemmap) (bs : BitSet) : Prop :=
  ∀ f < bsGetSize bs, get bs f = true → ∃ e ∈ es, e.Holds f

/-- The page steps that go beyond 4 GiB come back to frames that are out of range or have a byte of a
reserved region. -/
def WrapsHarmless (es : List MbootMemmap) (frames : Nat) : Prop :=
  ∀ e ∈ es, e.type = 2 → ∀ k, 4096 * k < e.length → 4294967296 ≤ e.baseAddr + 4096 * k →
    let f := u32 (e.baseAddr + 4096 * k) / 4096
    frames ≤ f ∨ ∃ e' ∈ es, e'.Holds f

section
variable {m : Mem} {mb : Multiboot} {es : List MbootMemmap}

/-- From a bitset without marks, `pmm_init` returns and marks only frames with a reserved byte exactly
when no region is longer than `2 ^ 64 - 4096` bytes and the steps beyond 4 GiB do no harm. -/
theorem onlyReserved_iff (hm : MapAt m mb es) :
    (∃ bs', pmmInit m mb (clearBits _) = .ok bs' ∧ OnlyReserved es bs') ↔
      (∀ e ∈ es, e.type = 2 → e.length ≤ 18446744073709547520) ∧
        WrapsHarmless es (bsGetSize ⟨_, clearBits (bsWords mb.frameCnt)⟩) := by
  by_cases hlen : ∀ e ∈ es, e.type = 2 → e.length ≤ 18446744073709547520
  · obtain ⟨bs', hrun, hsz, hget⟩ := pmmInit_spec (clearBits _) hm hlen
    have hsize : bsGetSize bs' = bsGetSize ⟨_, clearBits (bsWords mb.frameCnt)⟩ := by
      rw [bsGetSize, hsz, bsGetSize]
    have hmark : ∀ f, get bs' f = true ↔
        f < bsGetSize ⟨_, clearBits (bsWords mb.frameCnt)⟩ ∧ ∃ e ∈ es, e.Steps f := fun f => by
      rw [hget, get_clearBits]
      simp
    constructor
    · rintro ⟨bs, hrun', h⟩
      obtain rfl : bs' = bs := Except.ok.inj (hrun.symm.trans hrun')
      refine ⟨hlen, fun e he ht k hk _ => ?_⟩
      intro f
      by_cases hlt : f < bsGetSize ⟨_, clearBits (bsWords mb.frameCnt)⟩
      · exact .inr (h f (hsize ▸ hlt) ((hmark f).mpr ⟨hlt, e, he, ht, k, hk, rfl⟩))
      · exact .inl (not_lt.mp hlt)
    · rintro ⟨-, h⟩
      refine ⟨bs', hrun, fun f _ hf => ?_⟩
      obtain ⟨hlt, e, he, ht, k, hk, hf⟩ := (hmark f).mp hf
      by_cases h32 : e.baseAddr + 4096 * k < 4294967296
      · rw [u32_eq h32] at hf
        exact ⟨e, he, ht, e.baseAddr + 4096 * k, by omega, by omega, hf⟩
      · have hwrap := h e he ht k hk (not_lt.mp h32)
        simp only [hf] at hwrap
        exact hwrap.resolve_left (by omega)
  · refine iff_of_false ?_ fun h => hlen h.1
    rintro ⟨bs', hrun, -⟩
    push Not at hlen
    obtain ⟨e, he, ht, hlong⟩ := hlen
    rw [pmmInit_diverges hm he ht hlong] at hrun
    cases hrun

/-- A machine whose reserved region is the first page above 4 GiB. -/
lemma mapAt_above : MapAt (writeMemmap (fun _ => 0) (p2v 4096) ⟨20, 4294967296, 4096, 2⟩)
    ⟨640, 15360, 24, 4096⟩ [⟨20, 4294967296, 4096, 2⟩] := by
  refine mapAt_single (readMemmap_writeMemmap ?_ ?_ ?_ ?_ ?_) rfl ?_ <;> decide

/-- A region at 4 GiB. -/
theorem onlyReserved_iff_above :
    (∃ bs', pmmInit (writeMemmap (fun _ => 0) (p2v 4096) ⟨20, 4294967296, 4096, 2⟩)
        ⟨640, 15360, 24, 4096⟩ (clearBits _) = .ok bs' ∧
        OnlyReserved [⟨20, 4294967296, 4096, 2⟩] bs') ↔
      (∀ e ∈ [(⟨20, 4294967296, 4096, 2⟩ : MbootMemmap)], e.type = 2 →
        e.length ≤ 18446744073709547520) ∧
        WrapsHarmless [⟨20, 4294967296, 4096, 2⟩] (bsGetSize ⟨_, clearBits (bsWords 4000)⟩) :=
  onlyReserved_iff mapAt_above

/-- The region above 4 GiB costs frame 0. -/
theorem not_onlyReserved_above :
    ∃ bs', pmmInit (writeMemmap (fun _ => 0) (p2v 4096) ⟨20, 4294967296, 4096, 2⟩)
        ⟨640, 15360, 24, 4096⟩ (clearBits _) = .ok bs' ∧
      ¬ OnlyReserved [⟨20, 4294967296, 4096, 2⟩] bs' := by
  obtain ⟨bs', hrun, hsz, hget⟩ := pmmInit_spec (clearBits _) mapAt_above fun e he _ => by
    rw [List.mem_singleton.mp he]
    decide
  have hsize : 0 < bsGetSize bs' := by
    rw [bsGetSize, hsz]
    decide
  refine ⟨bs', hrun, fun h => ?_⟩
  have hset : get bs' 0 = true :=
    (hget 0).mpr (.inr ⟨by decide, _, List.mem_singleton_self _, rfl, 0, by decide, by decide⟩)
  obtain ⟨e, he, hh⟩ := h 0 hsize hset
  rw [List.mem_singleton.mp he] at hh
  have := (holds_iff.mp hh).2.2.1
  revert this
  decide

end

end ToeS.Boot
