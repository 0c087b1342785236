import ToeS.Lib.Chain
import ToeS.Lib.Traced
import ToeS.Boot.Multiboot

/-!
# The walk over the memory map, byte by byte

`pmm_init` once more, now with every byte of the memory map that it reads. The walk takes its strides
from the map and checks of an entry only that it begins inside. `walkSafe_iff` says for which maps the
loops end and all that is read belongs to the map: the entries that the sizes lead to are finitely
many, those of their fields that are used lie inside, and no reserved region is so long that the
64-bit counter of the inner loop wraps around.
-/

namespace ToeS.Boot
open Lib Frames Traced

namespace Walk

/-- Traced code with the new bitset as state. -/
abbrev Code := Traced Fault BitSet

/-- The `n` bytes from `a` on. -/
def bytes (n a : Nat) : List Nat := (List.range n).map fun k => u32 (a + k)

variable (m : Mem)

def size (mmap : Nat) : Code Nat := load (bytes 4 mmap) fun _ => (readMemmap m mmap).size
def baseAddr (mmap : Nat) : Code Nat := load (bytes 8 (mmap + 4)) fun _ => (readMemmap m mmap).baseAddr
def length (mmap : Nat) : Code Nat := load (bytes 8 (mmap + 12)) fun _ => (readMemmap m mmap).length
def type (mmap : Nat) : Code Nat := load (bytes 4 (mmap + 20)) fun _ => (readMemmap m mmap).type

/-- The inner loop of `pmm_init`. -/
def markRegion (mmap : Nat) : Nat → Nat → Code Unit
  | 0, _ => fail .diverges
  | n + 1, i => do
    let length ← length m mmap
    if i < length then do
      let baseAddr ← baseAddr m mmap
      let addr := u32 (baseAddr + i)
      if addr > 0xffffffff then return ()
      else do
        store [] fun frames => bsSet frames ((addr &&& 0xfffff000) / pgSz)
        markRegion mmap n (u64 (i + pgSz))
    else return ()

/-- What `pmm_init` does with an entry. -/
def markEntry (mmap : Nat) : Code Unit := do
  let type ← type m mmap
  if type = 2 then markRegion m mmap regionFuel 0 else return ()

/-- The outer loop of `pmm_init`. -/
def mmapLoop (stop : Nat) : Nat → Nat → Code Unit
  | 0, _ => fail .diverges
  | n + 1, mmap =>
    if mmap < stop then do
      markEntry m mmap
      let size ← size m mmap
      mmapLoop stop n (u32 (mmap + size + 4))
    else return ()

/-- C `pmm_init`, from the new bitset on. -/
def pmmInit (mb : Multiboot) : Code Unit :=
  mmapLoop m (u32 (p2v mb.mmapAddr + mb.mmapLength)) chainFuel (p2v mb.mmapAddr)

/-! ## The traced functions compute what the plain ones do -/

/-- Read a plain result as a traced one. -/
def ended (r : Except Fault BitSet) : Except Fault (Unit × BitSet) := do
  let frames ← r
  return ((), frames)

section
variable {m : Mem} {bs : BitSet} {mmap n : Nat}

/-- The loop over a region sets the same bits. -/
lemma run_markRegion {i : Nat} :
    (markRegion m mmap n i).run bs = ended (Boot.markRegion (readMemmap m mmap) n i bs) := by
  induction n generalizing i bs with
  | zero => rfl
  | succ n ih =>
    rw [markRegion, Boot.markRegion]
    simp only [length, baseAddr, run_bind, run_load, run_ite, run_store, ok_bind, ih]
    split
    · split
      · rfl
      · rfl
    · rfl

/-- What is done for an entry sets the same bits. -/
lemma run_markEntry :
    (markEntry m mmap).run bs = ended (Boot.markEntry (readMemmap m mmap) bs) := by
  rw [markEntry, Boot.markEntry]
  simp only [type, run_bind, run_load, run_ite, ok_bind, run_markRegion]
  split <;> rfl

/-- The loop over the map sets the same bits. -/
lemma run_mmapLoop {stop : Nat} :
    (mmapLoop m stop n mmap).run bs = ended (Boot.mmapLoop m stop n mmap bs) := by
  induction n generalizing mmap bs with
  | zero => rfl
  | succ n ih =>
    rw [mmapLoop, Boot.mmapLoop]
    simp only [size, run_ite, run_bind, run_load, run_markEntry]
    split
    · cases Boot.markEntry (readMemmap m mmap) bs with
      | error e => rfl
      | ok bs₁ => exact ih
    · rfl

/-- `pmm_init` sets the same bits. -/
lemma run_pmmInit {mb : Multiboot} {bits : Vector (BitVec 32) (bsWords mb.frameCnt)} :
    (pmmInit m mb).run ⟨_, bits⟩ = ended (Boot.pmmInit m mb bits) := by
  rw [pmmInit, Boot.pmmInit]
  exact run_mmapLoop

end

end Walk

/-! ## The entries that are met -/

/-- Where the sizes lead from an entry; all addresses past the end count as the end. -/
def nextEntry (m : Mem) (stop mmap : Nat) : Nat := min stop (u32 (mmap + (readMemmap m mmap).size + 4))

/-- The fields of an entry that are used lie in `W`: size and type always, the length for a reserved
region, its base address if it is not empty. A reserved region has at most `2 ^ 64 - 4096` bytes. -/
structure EntryFits (W : Nat → Prop) (m : Mem) (mmap : Nat) : Prop where
  size : ∀ a ∈ Walk.bytes 4 mmap, W a
  type : ∀ a ∈ Walk.bytes 4 (mmap + 20), W a
  length : (readMemmap m mmap).type = 2 → ∀ a ∈ Walk.bytes 8 (mmap + 12), W a
  baseAddr : (readMemmap m mmap).type = 2 → 0 < (readMemmap m mmap).length →
    ∀ a ∈ Walk.bytes 8 (mmap + 4), W a
  short : (readMemmap m mmap).type = 2 → (readMemmap m mmap).length ≤ 18446744073709547520

section
variable {m : Mem} {W : Nat → Prop} {bs : BitSet} {mmap n stop : Nat}

/-- The inner loop reads the length, and the base address if there is a round. -/
lemma within_markRegion {i : Nat} (hl : ∀ a ∈ Walk.bytes 8 (mmap + 12), W a)
    (hb : 0 < (readMemmap m mmap).length → ∀ a ∈ Walk.bytes 8 (mmap + 4), W a) :
    Within W (Walk.markRegion m mmap n i) bs := by
  induction n generalizing i bs with
  | zero => exact within_fail
  | succ n ih =>
    rw [Walk.markRegion]
    refine Within.load_bind hl ?_
    split
    · refine Within.load_bind (hb (by omega)) ?_
      simp only
      split
      · exact within_pure
      · exact Within.store_bind (by simp) ih
    · exact within_pure

/-- It does read them. -/
lemma of_within_markRegion (h : Within W (Walk.markRegion m mmap (n + 1) 0) bs) :
    (∀ a ∈ Walk.bytes 8 (mmap + 12), W a) ∧
      (0 < (readMemmap m mmap).length → ∀ a ∈ Walk.bytes 8 (mmap + 4), W a) := by
  rw [Walk.markRegion] at h
  obtain ⟨hlen, h⟩ := within_bind.mp h
  refine ⟨hlen, fun hpos => ?_⟩
  have h := h _ _ rfl
  rw [if_pos hpos] at h
  exact (within_bind.mp h).1

/-- A reserved region that is too long for the counter is never done with. -/
lemma markEntry_long {e : MbootMemmap} (ht : e.type = 2) (hlen : 18446744073709547520 < e.length) :
    markEntry e bs = .error .diverges := by
  rw [markEntry, if_pos ht]
  exact markRegion_diverges hlen rfl (by decide)

/-- The reads of an entry are its type, and its address and length if it is reserved. -/
lemma within_markEntry : Within W (Walk.markEntry m mmap) bs ↔
    (∀ a ∈ Walk.bytes 4 (mmap + 20), W a) ∧ ((readMemmap m mmap).type = 2 →
      Within W (Walk.markRegion m mmap regionFuel 0) bs) := by
  rw [Walk.markEntry, within_bind]
  refine and_congr_right fun _ => ⟨fun h ht => ?_, fun h t bs₁ hr => ?_⟩
  · have h := h _ _ rfl
    rwa [if_pos ht] at h
  · cases hr
    split
    · rename_i ht
      exact h ht
    · exact within_pure

/-- An entry is dealt with inside of `W` exactly when its used fields are inside. -/
lemma markEntry_iff :
    (∃ bs', markEntry (readMemmap m mmap) bs = .ok bs') ∧ Within W (Walk.markEntry m mmap) bs ↔
      (∀ a ∈ Walk.bytes 4 (mmap + 20), W a) ∧ ((readMemmap m mmap).type = 2 →
        (∀ a ∈ Walk.bytes 8 (mmap + 12), W a) ∧
        (0 < (readMemmap m mmap).length → ∀ a ∈ Walk.bytes 8 (mmap + 4), W a) ∧
        (readMemmap m mmap).length ≤ 18446744073709547520) := by
  rw [within_markEntry]
  constructor
  · rintro ⟨⟨bs', hrun⟩, htype, hrest⟩
    refine ⟨htype, fun ht => ?_⟩
    obtain ⟨hlen, hbase⟩ := of_within_markRegion (hrest ht)
    refine ⟨hlen, hbase, ?_⟩
    by_contra hlong
    rw [markEntry_long ht (not_le.mp hlong)] at hrun
    cases hrun
  · rintro ⟨htype, h⟩
    obtain ⟨bs', hrun, -⟩ := markEntry_spec (e := readMemmap m mmap) bs fun ht => (h ht).2.2
    exact ⟨⟨bs', hrun⟩, htype, fun ht => within_markRegion (h ht).1 (h ht).2.1⟩

/-- The outer loop ends, and reads inside of `W` only. -/
def LoopSafe (W : Nat → Prop) (m : Mem) (stop n mmap : Nat) (bs : BitSet) : Prop :=
  (∃ bs', mmapLoop m stop n mmap bs = .ok bs') ∧ Within W (Walk.mmapLoop m stop n mmap) bs

/-- One round of it. -/
lemma LoopSafe.head (h : LoopSafe W m stop (n + 1) mmap bs) (hlt : mmap < stop) :
    EntryFits W m mmap ∧
      ∃ bs₁, LoopSafe W m stop n (u32 (mmap + (readMemmap m mmap).size + 4)) bs₁ := by
  obtain ⟨⟨bs', hrun⟩, hw⟩ := h
  rw [mmapLoop, if_pos hlt] at hrun
  rw [Walk.mmapLoop, if_pos hlt] at hw
  obtain ⟨bs₁, h₁, hrun⟩ := bind_ok.mp hrun
  obtain ⟨hentry, hw⟩ := within_bind.mp hw
  have hw := hw () bs₁ (by rw [Walk.run_markEntry, h₁]; rfl)
  obtain ⟨hsize, hw⟩ := within_bind.mp hw
  obtain ⟨htype, hrest⟩ := markEntry_iff.mp ⟨⟨bs₁, h₁⟩, hentry⟩
  exact ⟨⟨hsize, htype, fun ht => (hrest ht).1, fun ht => (hrest ht).2.1, fun ht => (hrest ht).2.2⟩,
    bs₁, ⟨bs', hrun⟩, hw _ _ rfl⟩

/-- The loop is safe if the entry is inside and the rest of the loop is safe. -/
lemma LoopSafe.cons (hf : EntryFits W m mmap) (hlt : mmap < stop)
    (h : ∀ bs₁, LoopSafe W m stop n (u32 (mmap + (readMemmap m mmap).size + 4)) bs₁) :
    LoopSafe W m stop (n + 1) mmap bs := by
  obtain ⟨⟨bs₁, h₁⟩, hentry⟩ : (∃ bs₁, markEntry (readMemmap m mmap) bs = .ok bs₁) ∧
    Within W (Walk.markEntry m mmap) bs := markEntry_iff.mpr
    ⟨hf.type, fun ht => ⟨hf.length ht, hf.baseAddr ht, hf.short ht⟩⟩
  obtain ⟨⟨bs', hrun⟩, hw⟩ := h bs₁
  constructor
  · refine ⟨bs', ?_⟩
    rw [mmapLoop, if_pos hlt]
    exact bind_ok.mpr ⟨bs₁, h₁, hrun⟩
  · rw [Walk.mmapLoop, if_pos hlt]
    exact hentry.bind (a := ()) (by rw [Walk.run_markEntry, h₁]; rfl) (Within.load_bind hf.size hw)

/-- The entries that the sizes lead to decide. -/
lemma loopSafe_iff : LoopSafe W m stop n mmap bs ↔
    ∃ l, Chain stop (nextEntry m stop) (min stop mmap) l ∧ l.length < n ∧
      ∀ a ∈ l, EntryFits W m a := by
  induction n generalizing mmap bs with
  | zero =>
    refine iff_of_false ?_ ?_
    · rintro ⟨⟨bs', hrun⟩, -⟩
      cases hrun
    · rintro ⟨l, -, hl, -⟩
      exact Nat.not_lt_zero _ hl
  | succ n ih =>
    by_cases hlt : mmap < stop
    · rw [min_eq_right hlt.le]
      constructor
      · intro h
        obtain ⟨hf, bs₁, h⟩ := h.head hlt
        obtain ⟨l, hc, hlen, hl⟩ := ih.mp h
        refine ⟨mmap :: l, ⟨rfl, hlt.ne, hc⟩, Nat.succ_lt_succ hlen, fun a ha => ?_⟩
        rcases List.mem_cons.mp ha with rfl | ha
        · exact hf
        · exact hl a ha
      · rintro ⟨l, hc, hlen, hl⟩
        cases l with
        | nil => exact absurd hc hlt.ne
        | cons a l =>
          obtain ⟨rfl, -, hc⟩ := hc
          exact .cons (hl _ (by simp)) hlt fun bs₁ => ih.mpr
            ⟨l, hc, Nat.lt_of_succ_lt_succ hlen, fun b hb => hl b (List.mem_cons_of_mem _ hb)⟩
    · rw [min_eq_left (not_lt.mp hlt)]
      refine iff_of_true ⟨⟨bs, by rw [mmapLoop, if_neg hlt]⟩, ?_⟩ ⟨[], rfl, Nat.succ_pos n, by simp⟩
      rw [Walk.mmapLoop, if_neg hlt]
      exact within_pure

/-- There are less than `2 ^ 32` of them. -/
lemma entries_length {l : List Nat} {a : Nat} (hstop : stop < 4294967296) (ha : a ≤ stop)
    (hc : Chain stop (nextEntry m stop) a l) : l.length < chainFuel := by
  have hlt : ∀ x ∈ l, x < stop := by
    induction l generalizing a with
    | nil => simp
    | cons b l ih =>
      obtain ⟨rfl, hne, hc⟩ := hc
      intro x hx
      rcases List.mem_cons.mp hx with rfl | hx
      · omega
      · exact ih (min_le_left ..) hc x hx
  have hsub : l ⊆ List.range stop := fun x hx => List.mem_range.mpr (hlt x hx)
  have := (List.subperm_of_subset hc.nodup hsub).length_le
  rw [List.length_range] at this
  unfold chainFuel
  omega

end

/-! ## What the walk depends on -/

section
variable {m m' : Mem} {W : Nat → Prop} {mmap stop : Nat}

/-- The bytes of a field. -/
lemma mem_bytes {n a k : Nat} (hk : k < n) : u32 (a + k) ∈ Walk.bytes n a :=
  List.mem_map.mpr ⟨k, List.mem_range.mpr hk, rfl⟩

/-- A word depends on its four bytes. -/
lemma readWord_congr {a : Nat} (h : ∀ x ∈ Walk.bytes 4 a, m' x = m x) :
    readWord m' a = readWord m a := by
  rw [readWord, readWord, h _ (mem_bytes (k := 1) (by decide)), h _ (mem_bytes (k := 2) (by decide)),
    h _ (mem_bytes (k := 3) (by decide)), h (u32 a) (mem_bytes (k := 0) (by decide))]

/-- A quad depends on its eight bytes. -/
lemma readQuad_congr {a : Nat} (h : ∀ x ∈ Walk.bytes 8 a, m' x = m x) :
    readQuad m' a = readQuad m a := by
  have hword : ∀ j, j + 4 ≤ 8 → readWord m' (a + j) = readWord m (a + j) := by
    refine fun j hj => readWord_congr fun x hx => ?_
    obtain ⟨k, hk, rfl⟩ := List.mem_map.mp hx
    rw [List.mem_range] at hk
    rw [Nat.add_assoc]
    exact h _ (mem_bytes (by omega))
  rw [readQuad, readQuad, hword 4 (by decide)]
  exact congrArg (· + _) (hword 0 (by decide))

namespace EntryFits

/-- Memories that agree on `W` have the same entry, as far as it is used. -/
lemma congr (h : EntryFits W m mmap) (hm : ∀ x, W x → m' x = m x) :
    (readMemmap m' mmap).size = (readMemmap m mmap).size ∧ EntryFits W m' mmap ∧
      ∀ f, (readMemmap m' mmap).Steps f ↔ (readMemmap m mmap).Steps f := by
  have hsize : (readMemmap m' mmap).size = (readMemmap m mmap).size :=
    readWord_congr fun x hx => hm x (h.size x hx)
  have htype : (readMemmap m' mmap).type = (readMemmap m mmap).type :=
    readWord_congr fun x hx => hm x (h.type x hx)
  have hlen : (readMemmap m mmap).type = 2 →
      (readMemmap m' mmap).length = (readMemmap m mmap).length := fun ht =>
    readQuad_congr fun x hx => hm x (h.length ht x hx)
  have hbase : (readMemmap m mmap).type = 2 → 0 < (readMemmap m mmap).length →
      (readMemmap m' mmap).baseAddr = (readMemmap m mmap).baseAddr := fun ht hpos =>
    readQuad_congr fun x hx => hm x (h.baseAddr ht hpos x hx)
  refine ⟨hsize, ⟨h.size, h.type, fun ht => h.length (htype ▸ ht), fun ht hpos => ?_, fun ht => ?_⟩,
    fun f => ?_⟩
  · exact h.baseAddr (htype ▸ ht) (hlen (htype ▸ ht) ▸ hpos)
  · rw [hlen (htype ▸ ht)]
    exact h.short (htype ▸ ht)
  · unfold MbootMemmap.Steps
    rw [htype]
    refine and_congr_right fun ht => exists_congr fun k => ?_
    rw [hlen ht]
    refine and_congr_right fun hk => ?_
    rw [hbase ht (by omega)]

end EntryFits

/-- The entries of a map lie in `W`, and so does what the walk reads. -/
def Entries (W : Nat → Prop) (m : Mem) (stop mmap : Nat) (l : List Nat) : Prop :=
  Chain stop (nextEntry m stop) (min stop mmap) l ∧ ∀ a ∈ l, EntryFits W m a

/-- The entries depend on the bytes of the map. -/
lemma Entries.congr {l : List Nat} (h : Entries W m stop mmap l) (hm : ∀ x, W x → m' x = m x) :
    Entries W m' stop mmap l := by
  refine ⟨Seg.congr h.1 fun a ha => ?_, fun a ha => ((h.2 a ha).congr hm).2.1⟩
  rw [nextEntry, nextEntry, ((h.2 a ha).congr hm).1]

/-- Along its entries the walk marks the frames of the steps. -/
lemma Entries.mmapLoop {l : List Nat} (h : Entries W m stop mmap l) {n : Nat} (hn : l.length < n)
    (bs : BitSet) :
    ∃ bs', mmapLoop m stop n mmap bs = .ok bs' ∧ bs'.sz = bs.sz ∧
      ∀ f, get bs' f = true ↔
        get bs f = true ∨ f < bsGetSize bs ∧ ∃ a ∈ l, (readMemmap m a).Steps f := by
  induction l generalizing n mmap bs with
  | nil =>
    obtain ⟨n, rfl⟩ := Nat.exists_eq_succ_of_ne_zero (Nat.ne_zero_of_lt hn)
    have hstop : min stop mmap = stop := h.1
    exact ⟨bs, by rw [Boot.mmapLoop, if_neg (by omega)], rfl, fun f => by simp⟩
  | cons a l ih =>
    obtain ⟨n, rfl⟩ := Nat.exists_eq_succ_of_ne_zero (Nat.ne_zero_of_lt hn)
    obtain ⟨⟨ha, hne, hc⟩, hl⟩ := h
    have hlt : mmap < stop := by omega
    obtain rfl : mmap = a := by omega
    obtain ⟨bs₁, hrun₁, hsz₁, hget₁⟩ := markEntry_spec bs (hl mmap (by simp)).short
    have hrest : Entries W m stop (u32 (mmap + (readMemmap m mmap).size + 4)) l :=
      ⟨hc, fun b hb => hl b (List.mem_cons_of_mem _ hb)⟩
    obtain ⟨bs', hrun, hsz, hget⟩ := ih hrest (Nat.lt_of_succ_lt_succ hn) bs₁
    refine ⟨bs', ?_, hsz.trans hsz₁, fun f => ?_⟩
    · rw [Boot.mmapLoop, if_pos hlt]
      exact bind_ok.mpr ⟨bs₁, hrun₁, hrun⟩
    · have hsize : bsGetSize bs₁ = bsGetSize bs := by rw [bsGetSize, hsz₁, bsGetSize]
      rw [hget, hget₁, hsize]
      simp only [List.mem_cons, exists_eq_or_imp]
      tauto

end

/-! ## The whole walk -/

/-- The loops of `pmm_init` end, and all the fields that are read lie in the memory map. -/
def WalkSafe (m : Mem) (mb : Multiboot) (bits : Vector (BitVec 32) (bsWords mb.frameCnt)) : Prop :=
  (∃ bs', pmmInit m mb bits = .ok bs') ∧
    Within (Bytes (p2v mb.mmapAddr) (p2v mb.mmapAddr + mb.mmapLength)) (Walk.pmmInit m mb) ⟨_, bits⟩

/-- `pmm_init` is safe when its loop is. -/
lemma walkSafe_loop {m : Mem} {mb : Multiboot} {bits : Vector (BitVec 32) (bsWords mb.frameCnt)} :
    WalkSafe m mb bits ↔ LoopSafe (Bytes (p2v mb.mmapAddr) (p2v mb.mmapAddr + mb.mmapLength)) m
      (u32 (p2v mb.mmapAddr + mb.mmapLength)) chainFuel (p2v mb.mmapAddr) ⟨_, bits⟩ := by
  rw [WalkSafe, LoopSafe, pmmInit, Walk.pmmInit]

/-- The loops end and stay inside exactly when the sizes lead from the first entry, through entries
that fit into the map, to an address that is not before its end. -/
theorem walkSafe_iff {m : Mem} {mb : Multiboot} {bits : Vector (BitVec 32) (bsWords mb.frameCnt)} :
    WalkSafe m mb bits ↔
      let start := p2v mb.mmapAddr
      let stop := u32 (start + mb.mmapLength)
      ∃ l, Chain stop (nextEntry m stop) (min stop start) l ∧
        ∀ mmap ∈ l, EntryFits (Bytes start (start + mb.mmapLength)) m mmap := by
  rw [walkSafe_loop, loopSafe_iff]
  refine exists_congr fun l => and_congr_right fun hc => and_iff_right ?_
  exact entries_length (u32_lt _) (min_le_left ..) hc

/-- An entry whose size leads back to it. -/
lemma mmapLoop_stuck {m : Mem} {stop n mmap : Nat} {bs : BitSet} (hlt : mmap < stop)
    (ht : (readMemmap m mmap).type ≠ 2) (hs : u32 (mmap + (readMemmap m mmap).size + 4) = mmap) :
    mmapLoop m stop n mmap bs = .error .diverges := by
  induction n with
  | zero => rfl
  | succ n ih =>
    rw [mmapLoop, if_pos hlt]
    simp only [markEntry, if_neg ht, ok_bind, hs]
    exact ih

/-- In a memory map of four bytes, all zero, the type of the entry is read from behind the end. In one
with an entry of the size `2 ^ 32 - 4` the walk stays at this entry. -/
theorem walk_unsafe :
    ¬ WalkSafe (fun _ => 0) ⟨640, 15360, 4, 4096⟩ (clearBits _) ∧
      pmmInit (writeMemmap (fun _ => 0) (p2v 4096) ⟨4294967292, 0, 0, 1⟩) ⟨640, 15360, 24, 4096⟩
        (clearBits _) = .error .diverges := by
  constructor
  · rw [walkSafe_loop, show chainFuel = 4294967295 + 1 from rfl]
    intro h
    obtain ⟨hf, -⟩ := h.head (by decide)
    have := hf.type (u32 (p2v 4096 + 20)) (by decide)
    revert this
    unfold Bytes
    decide
  · have hread : readMemmap (writeMemmap (fun _ => 0) (p2v 4096) ⟨4294967292, 0, 0, 1⟩) (p2v 4096) =
        ⟨4294967292, 0, 0, 1⟩ := by
      refine readMemmap_writeMemmap ?_ ?_ ?_ ?_ ?_ <;> decide
    refine mmapLoop_stuck (by decide) ?_ ?_
    · rw [hread]
      decide
    · rw [hread]
      decide

end ToeS.Boot
