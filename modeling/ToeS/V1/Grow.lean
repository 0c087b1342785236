import ToeS.Lib.Run
import Mathlib.Data.Nat.Bitwise
import ToeS.V1.Fail

/-!
# Growing and shrinking the v1 heap

`expand` and `contract` (`v1/os/kheap.c`) change the end of the heap, the size of the last block and the
pages of the heap. `expand` always makes room for a page more than it is asked for, but it does so in all
three places. `contract` masks the new size with `0x1000` where `expand` masks with `0xfffff000`, clamps it
without correcting the amount that the last block loses, and leaves the page at the new end mapped; only
`contract(heap, 0)` on a heap of an even number of at least 16 pages does no harm. A frame that
`alloc_frame` does not get is taken from the error value of `pop_frame`.
-/

namespace ToeS.V1
open Lib Kheap

/-- A call of `expand` or of `contract`. -/
inductive Resize where
  | expand (sz : Nat)
  | contract (sz : Nat)

def resize (s : State) : Resize → Except Fault State
  | .expand sz => (expand s sz).map Prod.fst
  | .contract sz => contract s sz

/-- The frames on the frame stack, from the top. -/
def stackFrames (s : State) : List Nat :=
  (List.range ((s.top - s.bottom) / 4)).map fun k => readWord s.heap.mem (s.top - 4 * k)

/-- The frames of the pages of the heap. -/
def heapFrames (s : State) : List Nat :=
  (List.range ((s.heap.end_ - s.heap.start) / 4096)).map fun k =>
    s.tables (s.heap.start / 4096 + k) &&& 0xfffff000

/-- What the calls since `s₀` have done to the heap fits together. -/
structure Resized (s₀ s : State) : Prop where
  start : s.heap.start = s₀.heap.start
  wild : getWilderness s.heap = getWilderness s₀.heap
  /-- The footer of the last block ends at the end of the heap. -/
  fits : getWilderness s.heap + s.heap.size (getWilderness s.heap) + 20 = s.heap.end_
  size : s.heap.size (getWilderness s.heap) + s₀.heap.end_ =
    s₀.heap.size (getWilderness s₀.heap) + s.heap.end_
  mapped : ∀ k, s.heap.start / 4096 ≤ k → 4096 * k < s.max →
    (s.tables k % 2 = 1 ↔ 4096 * k < s.heap.end_)
  /-- No frame is lost, and none is in two places. -/
  frames : (stackFrames s ++ heapFrames s).Perm (stackFrames s₀ ++ heapFrames s₀)

/-- A heap of whole pages with a frame stack below it. -/
structure Paged (s : State) : Prop where
  startAligned : s.heap.start % 4096 = 0
  endAligned : s.heap.end_ % 4096 = 0
  lt : s.heap.end_ < 4294967296
  wild : s.heap.start ≤ getWilderness s.heap
  fits : getWilderness s.heap + s.heap.size (getWilderness s.heap) + 20 = s.heap.end_
  mapped : ∀ k, s.heap.start / 4096 ≤ k → k < s.heap.end_ / 4096 → s.tables k % 2 = 1
  unmapped : ∀ k, s.heap.end_ / 4096 ≤ k → 4096 * k < s.max → s.tables k = 0
  stack : s.bottom ≤ s.top ∧ s.top + 4 ≤ s.heap.start
  frames : ∀ f ∈ stackFrames s, f % 4096 = 0

/-- An `expand` is refused, or it does not pass the end of the address space and the frame stack has the
frames for it; a `contract` is one of 0 bytes on an even number of at least 16 pages. -/
def Harmless (s : State) : Resize → Prop
  | .expand sz => maxedOut s sz = true ∨
    s.heap.end_ + sz + 4096 < 4294967296 ∧ sz / 4096 + 1 ≤ (s.top - s.bottom) / 4
  | .contract sz => sz = 0 ∧ minHeapSize ≤ s.heap.end_ - s.heap.start ∧
    (s.heap.end_ - s.heap.start) / 4096 % 2 = 0

/-- The sizes that the calls are made with. -/
def Legal (s : State) : Resize → Prop
  | .expand sz | .contract sz => sz % 4096 = 0 ∧ sz < s.heap.size (getWilderness s.heap)

section
variable {s s₀ s' : State} {a c i n w v sz newSize : Nat} {h : Heap}

/-- Nothing has been done to the heap. -/
lemma Paged.resized (P : Paged s) : Resized s s where
  start := rfl
  wild := rfl
  fits := P.fits
  size := rfl
  mapped k hk hm := by
    have := P.endAligned
    constructor
    · intro hp
      by_contra hlt
      rw [P.unmapped k (by omega) hm] at hp
      cases hp
    · intro hlt
      exact P.mapped k hk (by omega)
  frames := List.Perm.refl _

/-- The heap begins before it ends. -/
lemma Paged.size_pos (P : Paged s) : s.heap.start + 4096 ≤ s.heap.end_ := by
  have := P.fits
  have := P.wild
  have := P.startAligned
  have := P.endAligned
  omega

/-! ## Pages -/

/-- A page gets the frame on top of the stack. -/
lemma allocFrame_spec (hstack : s.bottom + 4 ≤ s.top) (htop : s.top < 4294967296)
    (hpte : s.tables (a / 4096) = 0) (hframe : readWord s.heap.mem s.top % 4096 = 0) :
    ∃ s', allocFrame (getPage s a).1 (getPage s a).2 1 1 = s' ∧ s'.heap = s.heap ∧ s'.max = s.max ∧
      s'.bottom = s.bottom ∧ s'.top = s.top - 4 ∧
      s'.tables = Function.update s.tables (a / 4096) (readWord s.heap.mem s.top + 7) := by
  obtain ⟨t, ht⟩ : ∃ t, t = (getPage s a).1 := ⟨_, rfl⟩
  have hpage : (getPage s a).2 = a / 4096 := by
    rw [getPage]
    have hshift : a >>> 12 = a / 4096 := Nat.shiftRight_eq_div_pow a 12
    split <;> exact hshift
  have hsame : t.heap = s.heap ∧ t.max = s.max ∧ t.bottom = s.bottom ∧ t.top = s.top ∧
      t.tables = s.tables := by
    rw [ht, getPage]
    split <;> exact ⟨rfl, rfl, rfl, rfl, rfl⟩
  obtain ⟨hh, hmax, hbot, htop', htab⟩ := hsame
  have hne : t.top ≠ t.bottom := by omega
  have hpte' : (((0 ||| 1) ||| 2) ||| 4) ||| readWord s.heap.mem s.top =
      readWord s.heap.mem s.top + 7 := by
    obtain ⟨q, hq⟩ : ∃ q, readWord s.heap.mem s.top = 2 ^ 12 * q := ⟨_, (Nat.mul_div_cancel' (by omega)).symm⟩
    rw [hq, Nat.or_comm]
    exact (Nat.two_pow_add_eq_or_of_lt (by decide) q).symm
  rw [← ht, hpage, allocFrame, popFrame, if_neg hne]
  refine ⟨_, rfl, hh, hmax, hbot, ?_, ?_⟩
  · show sub32 t.top 4 = _
    rw [htop', sub32_eq (by omega) htop]
  · show Function.update t.tables (a / 4096) _ = _
    rw [htab, hpte, hh, htop', ← hpte']
    rfl

/-- The loop of `expand` moves as many frames from the stack to the pages as there are pages. -/
lemma expandLoop_spec (hi : i + 4096 * c = newSize) (hn : c < n)
    (hal : (s.heap.start + i) % 4096 = 0) (hlt : s.heap.start + newSize < 4294967296)
    (hstack : s.bottom + 4 * c ≤ s.top) (htop : s.top < 4294967296)
    (hpte : ∀ j < c, s.tables ((s.heap.start + i) / 4096 + j) = 0)
    (hframe : ∀ j < c, readWord s.heap.mem (s.top - 4 * j) % 4096 = 0) :
    ∃ s', expandLoop newSize n i s = .ok s' ∧ s'.heap = s.heap ∧ s'.max = s.max ∧
      s'.bottom = s.bottom ∧ s'.top = s.top - 4 * c ∧
      (∀ j < c, s'.tables ((s.heap.start + i) / 4096 + j) = readWord s.heap.mem (s.top - 4 * j) + 7) ∧
      ∀ k, k < (s.heap.start + i) / 4096 ∨ (s.heap.start + i) / 4096 + c ≤ k →
        s'.tables k = s.tables k := by
  induction c generalizing s i n with
  | zero =>
    obtain ⟨n, rfl⟩ := Nat.exists_eq_add_one.mpr hn
    refine ⟨s, ?_, rfl, rfl, rfl, rfl, fun j hj => absurd hj (Nat.not_lt_zero _), fun _ _ => rfl⟩
    rw [expandLoop, if_neg (by omega)]
  | succ c ih =>
    obtain ⟨n, rfl⟩ := Nat.exists_eq_add_one.mpr (Nat.zero_lt_of_lt hn)
    obtain ⟨s₁, h₁, hh, hmax, hbot, htop₁, htab⟩ := allocFrame_spec (s := s) (a := s.heap.start + i)
      (by omega) htop (hpte 0 (by omega)) (hframe 0 (by omega))
    have hnext : (s.heap.start + (i + 4096)) / 4096 = (s.heap.start + i) / 4096 + 1 := by omega
    obtain ⟨s', hrun, hh', hmax', hbot', htop', hnew, hold⟩ := ih (s := s₁) (i := i + 4096) (n := n)
      (by omega) (by omega) (by rw [hh]; omega) (by rw [hh]; omega) (by omega) (by omega)
      (fun j hj => by
        rw [hh, hnext, htab, Function.update_of_ne (by omega), Nat.add_assoc, Nat.add_comm 1]
        exact hpte (j + 1) (by omega))
      fun j hj => by
        rw [hh, htop₁, show s.top - 4 - 4 * j = s.top - 4 * (j + 1) by omega]
        exact hframe (j + 1) (by omega)
    rw [hh, hnext] at hnew hold
    refine ⟨s', ?_, hh'.trans hh, hmax'.trans hmax, hbot'.trans hbot, by omega, fun j hj => ?_,
      fun k hk => ?_⟩
    · rw [expandLoop, if_pos (by omega), u32_eq (n := s.heap.start + i) (by omega),
        u32_eq (n := i + 0x1000) (by omega)]
      simp only
      rw [h₁]
      exact hrun
    · cases j with
      | zero =>
        rw [hold _ (by omega), htab]
        exact Function.update_self ..
      | succ j =>
        rw [show (s.heap.start + i) / 4096 + (j + 1) = (s.heap.start + i) / 4096 + 1 + j by omega,
          hnew j (by omega), htop₁, show s.top - 4 - 4 * j = s.top - 4 * (j + 1) by omega]
    · rw [hold k (by omega), htab, Function.update_of_ne (by omega)]

/-! ## The last block -/

/-- The last block gets the size `v` and a footer in front of the new end of the heap. -/
lemma refit_spec {h₁ : Heap} {stop : Nat} (e : Edit (w ≤ ·) h h₁) (hfit : w + v + 20 = stop)
    (hlt : stop < 4294967296) :
    ∃ h', { (h₁.setSize w v).setHeader (getFoot (h₁.setSize w v) w) w with end_ := stop } = h' ∧
      h'.start = h.start ∧ h'.end_ = stop ∧ getWilderness h' = w ∧ h'.size w = v ∧
      ∀ a, a + 4 ≤ w → readWord h'.mem a = readWord h.mem a := by
  have hsize : (h₁.setSize w v).size w = v := size_setSize (by omega) (by omega)
  have hfoot : getFoot (h₁.setSize w v) w = w + 16 + v := by
    rw [getFoot, hsize]
    exact u32_eq (by simp only [blockSz]; omega)
  have hpos : sub32 stop footerSz = w + 16 + v := by
    rw [sub32_eq (by simp only [footerSz]; omega) hlt]
    simp only [footerSz]
    omega
  have efoot : Edit (Bytes (w + 16 + v) (w + 16 + v + 4)) (h₁.setSize w v)
      ((h₁.setSize w v).setHeader (w + 16 + v) w) := .setHeader (by omega)
  have hafter : Edit (w ≤ ·) h ((h₁.setSize w v).setHeader (w + 16 + v) w) := by
    refine (e.trans ((Edit.setSize (by omega)).mono fun x hx => ?_)).trans (efoot.mono fun x hx => ?_)
    all_goals
      unfold Bytes at hx
      omega
  rw [hfoot]
  refine ⟨_, rfl, hafter.start, rfl, ?_, ?_, fun a ha => ?_⟩
  · show ((h₁.setSize w v).setHeader (w + 16 + v) w).header (sub32 stop footerSz) = w
    rw [hpos]
    exact header_setHeader (by omega) (by omega)
  · show ((h₁.setSize w v).setHeader (w + 16 + v) w).size w = v
    rw [efoot.size (by omega), hsize]
    intro x hx hx'
    unfold Bytes at hx hx'
    omega
  · refine hafter.mem.readWord (by omega) fun x hx hx' => ?_
    unfold Bytes at hx
    omega

/-- The end of `expand`: the last block gets `sz` bytes more. -/
lemma growWild_spec
    (hfit : getWilderness s.heap + s.heap.size (getWilderness s.heap) + 20 = s.heap.end_)
    (hlt : s.heap.end_ + sz < 4294967296) (hnew : s.heap.start + newSize = s.heap.end_ + sz) :
    ∃ h', growWild s sz newSize = { s with heap := h' } ∧ h'.start = s.heap.start ∧
      h'.end_ = s.heap.end_ + sz ∧ getWilderness h' = getWilderness s.heap ∧
      h'.size (getWilderness s.heap) = s.heap.size (getWilderness s.heap) + sz ∧
      ∀ a, a + 4 ≤ getWilderness s.heap → readWord h'.mem a = readWord s.heap.mem a := by
  obtain ⟨w, hw⟩ : ∃ w, getWilderness s.heap = w := ⟨_, rfl⟩
  rw [hw] at hfit ⊢
  have hfoot : getFoot s.heap w = w + 16 + s.heap.size w := by
    rw [getFoot]
    exact u32_eq (by simp only [blockSz]; omega)
  have hclear : Edit (Bytes (w + 16 + s.heap.size w) (w + 16 + s.heap.size w + 4)) s.heap
      (s.heap.setHeader (w + 16 + s.heap.size w) 0) := .setHeader (by omega)
  have hkept : (s.heap.setHeader (w + 16 + s.heap.size w) 0).size w = s.heap.size w := by
    refine hclear.size (by omega) fun x hx hx' => ?_
    unfold Bytes at hx hx'
    omega
  have hclear' : Edit (w ≤ ·) s.heap (s.heap.setHeader (w + 16 + s.heap.size w) 0) :=
    hclear.mono fun x hx => by
      unfold Bytes at hx
      omega
  have hfit' : w + (s.heap.size w + sz) + 20 = s.heap.end_ + sz := by omega
  obtain ⟨h', hrefit, hs, he, hw', hv, hbelow⟩ := refit_spec hclear' hfit' hlt
  refine ⟨h', ?_, hs, he, hw', hv, hbelow⟩
  have hend : u32 (s.heap.start + newSize) = s.heap.end_ + sz := by rw [hnew, u32_eq hlt]
  rw [growWild]
  simp only [hw, hfoot, hkept, u32_eq (n := s.heap.size w + sz) (by omega)]
  rw [← hrefit, ← hend]
  rfl

/-- The end of `contract` when nothing is given back. -/
lemma shrinkWild_zero
    (hfit : getWilderness s.heap + s.heap.size (getWilderness s.heap) + 20 = s.heap.end_)
    (hlt : s.heap.end_ < 4294967296) (hnew : s.heap.start + newSize = s.heap.end_) :
    ∃ h', shrinkWild s 0 newSize = { s with heap := h' } ∧ h'.start = s.heap.start ∧
      h'.end_ = s.heap.end_ ∧ getWilderness h' = getWilderness s.heap ∧
      h'.size (getWilderness s.heap) = s.heap.size (getWilderness s.heap) ∧
      ∀ a, a + 4 ≤ getWilderness s.heap → readWord h'.mem a = readWord s.heap.mem a := by
  obtain ⟨w, hw⟩ : ∃ w, getWilderness s.heap = w := ⟨_, rfl⟩
  rw [hw] at hfit ⊢
  obtain ⟨h', hrefit, hspec⟩ := refit_spec (w := w) (v := s.heap.size w) (.refl _ _) hfit hlt
  refine ⟨h', ?_, hspec⟩
  have hsize : sub32 (s.heap.size w) 0 = s.heap.size w := sub32_eq (Nat.zero_le _) (by omega)
  have hend : u32 (s.heap.start + newSize) = s.heap.end_ := by rw [hnew, u32_eq hlt]
  rw [shrinkWild]
  simp only [hw, hsize]
  rw [← hrefit, ← hend]
  rfl

end

/-! ## Growing -/

/-- The heap of `s'` is that of `s` with `c` pages more, which have the frames on top of the stack. -/
structure Grown (s s' : State) (c : Nat) : Prop where
  enough : c ≤ (s.top - s.bottom) / 4
  start : s'.heap.start = s.heap.start
  end_ : s'.heap.end_ = s.heap.end_ + 4096 * c
  lt : s'.heap.end_ < 4294967296
  wild : getWilderness s'.heap = getWilderness s.heap
  size : s'.heap.size (getWilderness s.heap) = s.heap.size (getWilderness s.heap) + 4096 * c
  below : ∀ a, a + 4 ≤ getWilderness s.heap → readWord s'.heap.mem a = readWord s.heap.mem a
  max : s'.max = s.max
  bottom : s'.bottom = s.bottom
  top : s'.top = s.top - 4 * c
  new : ∀ j < c, s'.tables (s.heap.end_ / 4096 + j) = readWord s.heap.mem (s.top - 4 * j) + 7
  old : ∀ k, k < s.heap.end_ / 4096 ∨ s.heap.end_ / 4096 + c ≤ k → s'.tables k = s.tables k

/-- The `c` frames on top of the stack. -/
def topFrames (s : State) (c : Nat) : List Nat :=
  (List.range c).map fun j => readWord s.heap.mem (s.top - 4 * j)

namespace Grown
variable {s₀ s s' : State} {c : Nat}

/-- The frames that are taken are those on top of the stack. -/
lemma stackFrames (G : Grown s s' c) (P : Paged s) :
    stackFrames s = topFrames s c ++ stackFrames s' := by
  have hc := G.enough
  have hstack := P.stack
  have hwild := P.wild
  have hn : (s.top - s.bottom) / 4 = c + (s'.top - s'.bottom) / 4 := by
    rw [G.top, G.bottom]
    omega
  rw [V1.stackFrames, V1.stackFrames, hn, List.range_add, List.map_append, List.map_map, topFrames]
  congr 1
  refine List.map_congr_left fun k hk => ?_
  show readWord s.heap.mem (s.top - 4 * (c + k)) = readWord s'.heap.mem (s'.top - 4 * k)
  rw [G.below _ (by rw [G.top]; omega), G.top, show s.top - 4 * c - 4 * k = s.top - 4 * (c + k) by omega]

/-- What is on the stack are addresses of frames. -/
lemma frame_mod (P : Paged s) {j : Nat} (hj : j < (s.top - s.bottom) / 4) :
    readWord s.heap.mem (s.top - 4 * j) % 4096 = 0 :=
  P.frames _ (List.mem_map.mpr ⟨j, List.mem_range.mpr hj, rfl⟩)

/-- The frames that are taken go to the pages at the end of the heap. -/
lemma heapFrames (G : Grown s s' c) (P : Paged s) : heapFrames s' = heapFrames s ++ topFrames s c := by
  have hpos := P.size_pos
  have hstart := P.startAligned
  have hend := P.endAligned
  have hc := G.enough
  have hn : (s'.heap.end_ - s'.heap.start) / 4096 = (s.heap.end_ - s.heap.start) / 4096 + c := by
    rw [G.end_, G.start]
    omega
  rw [V1.heapFrames, V1.heapFrames, hn, List.range_add, List.map_append, List.map_map, G.start]
  congr 1
  · refine List.map_congr_left fun k hk => ?_
    rw [List.mem_range] at hk
    rw [G.old _ (.inl (by omega))]
  · refine List.map_congr_left fun j hj => ?_
    rw [List.mem_range] at hj
    have hframe := frame_mod P (j := j) (by omega)
    have hlt := readWord_lt s.heap.mem (s.top - 4 * j)
    show s'.tables (s.heap.start / 4096 + ((s.heap.end_ - s.heap.start) / 4096 + j)) &&& 0xfffff000 = _
    rw [show s.heap.start / 4096 + ((s.heap.end_ - s.heap.start) / 4096 + j) = s.heap.end_ / 4096 + j by
      omega, G.new j hj, and_frame (by omega)]
    omega

/-- The frames stay the same ones. -/
lemma frames (G : Grown s s' c) (P : Paged s) :
    (V1.stackFrames s' ++ V1.heapFrames s').Perm (V1.stackFrames s ++ V1.heapFrames s) := by
  rw [G.stackFrames P, G.heapFrames P, ← List.append_assoc, List.append_assoc (topFrames s c)]
  exact List.perm_append_comm

/-- A heap that has grown is one of whole pages. -/
lemma paged (G : Grown s s' c) (P : Paged s) : Paged s' where
  startAligned := by rw [G.start, P.startAligned]
  endAligned := by
    rw [G.end_, Nat.add_mul_mod_self_left]
    exact P.endAligned
  lt := G.lt
  wild := by
    rw [G.start, G.wild]
    exact P.wild
  fits := by
    have := P.fits
    rw [G.wild, G.size, G.end_]
    omega
  mapped k hk hlt := by
    rw [G.start] at hk
    rw [G.end_] at hlt
    by_cases h : k < s.heap.end_ / 4096
    · rw [G.old k (.inl h)]
      exact P.mapped k hk h
    · obtain ⟨j, rfl⟩ := Nat.exists_eq_add_of_le (Nat.le_of_not_lt h)
      have hj : j < c := by omega
      have hframe := frame_mod P (hj.trans_le G.enough)
      rw [G.new j hj]
      omega
  unmapped k hk hmax := by
    rw [G.end_] at hk
    rw [G.old k (.inr (by omega))]
    exact P.unmapped k (by omega) (G.max ▸ hmax)
  stack := by
    have := P.stack
    have := G.enough
    rw [G.bottom, G.top, G.start]
    omega
  frames f hf := by
    refine P.frames f ?_
    rw [G.stackFrames P]
    exact List.mem_append_right _ hf

/-- A heap that has grown fits together as before. -/
lemma resized (G : Grown s s' c) (P : Paged s) (R : Resized s₀ s) : Resized s₀ s' where
  start := G.start.trans R.start
  wild := G.wild.trans R.wild
  fits := (G.paged P).fits
  size := by
    have := R.size
    rw [G.wild, G.size, G.end_]
    omega
  mapped := (G.paged P).resized.mapped
  frames := (G.frames P).trans R.frames

end Grown

section
variable {s s₀ s' : State} {sz : Nat}

/-- Nothing has happened. -/
lemma Paged.grown_self (P : Paged s) : Grown s s 0 :=
  ⟨Nat.zero_le _, rfl, rfl, P.lt, rfl, rfl, fun _ _ => rfl, rfl, rfl, rfl,
    fun _ hj => absurd hj (Nat.not_lt_zero _), fun _ _ => rfl⟩

/-- One page more than was asked for. -/
lemma pages_succ (hsz : sz % 4096 = 0) : sz + 4096 = 4096 * (sz / 4096 + 1) := by omega

/-- `expand` makes room for a page more than it is asked for. -/
lemma grownSize_eq (P : Paged s) (hsz : sz % 4096 = 0) (hlt : s.heap.end_ + sz + 4096 < 4294967296) :
    u32 (sub32 s.heap.end_ s.heap.start + sz) &&& 0xfffff000 ≠ 0 ∧
      grownSize s sz = s.heap.end_ - s.heap.start + sz + 4096 := by
  have hpos := P.size_pos
  have hstart := P.startAligned
  have hend := P.endAligned
  have hx : u32 (sub32 s.heap.end_ s.heap.start + sz) = s.heap.end_ - s.heap.start + sz := by
    rw [sub32_eq (by omega) (by omega), u32_eq (by omega)]
  have hmask : (s.heap.end_ - s.heap.start + sz) &&& 0xfffff000 = s.heap.end_ - s.heap.start + sz := by
    rw [and_frame (by omega)]
    omega
  rw [grownSize, hx, hmask]
  refine ⟨by omega, ?_⟩
  rw [if_pos (by omega), u32_eq (by omega)]

/-- `expand` refuses when a page more than asked for passes the maximum. -/
lemma maxedOut_iff (P : Paged s) (hsz : sz % 4096 = 0) (hlt : s.heap.end_ + sz + 4096 < 4294967296) :
    maxedOut s sz = true ↔ s.max < s.heap.end_ + sz + 4096 := by
  have hpos := P.size_pos
  have hstop : s.heap.start + (s.heap.end_ - s.heap.start + sz + 4096) = s.heap.end_ + sz + 4096 := by
    omega
  rw [maxedOut, (grownSize_eq P hsz hlt).2, hstop, u32_eq hlt, decide_eq_true_iff]

/-- What `expand` does when it does not refuse. -/
lemma expand_eq {newSize : Nat} {s₁ : State} (P : Paged s) (hsz : sz % 4096 = 0)
    (hlt : s.heap.end_ + sz + 4096 < 4294967296) (hmax : ¬ maxedOut s sz = true)
    (hnew : newSize = s.heap.end_ - s.heap.start + sz + 4096)
    (hloop : expandLoop newSize chainFuel (s.heap.end_ - s.heap.start) s = .ok s₁) :
    expand s sz = .ok (growWild s₁ (sz + 4096) newSize, 1) := by
  have hpos := P.size_pos
  have hold : sub32 s.heap.end_ s.heap.start = s.heap.end_ - s.heap.start :=
    sub32_eq (by omega) (by omega)
  have hdiff : sub32 newSize (s.heap.end_ - s.heap.start) = sz + 4096 := by
    rw [sub32_eq (by omega) (by omega)]
    omega
  obtain ⟨hmask, hgrown⟩ := grownSize_eq P hsz hlt
  rw [← hnew] at hgrown
  rw [hold] at hmask
  rw [maxedOut, decide_eq_true_iff, hgrown] at hmax
  rw [expand, hgrown, hold]
  simp only [if_pos hmask, if_neg hmax]
  rw [hloop, ok_bind, hdiff]
  rfl

/-- `expand` when it does not refuse, and there are frames enough. -/
lemma expand_grown (P : Paged s) (hsz : sz % 4096 = 0)
    (hlt : s.heap.end_ + sz + 4096 < 4294967296) (hstack : sz / 4096 + 1 ≤ (s.top - s.bottom) / 4)
    (hmax : ¬ maxedOut s sz = true) :
    ∃ s', expand s sz = .ok (s', 1) ∧ Grown s s' (sz / 4096 + 1) := by
  have hroom : s.heap.end_ + sz + 4096 ≤ s.max := Nat.le_of_not_lt (mt (maxedOut_iff P hsz hlt).mpr hmax)
  have hpos := P.size_pos
  have hstart := P.startAligned
  have hend := P.endAligned
  have hbelow := P.stack
  have hfirst : s.heap.start + (s.heap.end_ - s.heap.start) = s.heap.end_ := by omega
  obtain ⟨newSize, hnew⟩ : ∃ n, n = s.heap.end_ - s.heap.start + sz + 4096 := ⟨_, rfl⟩
  have hstop : s.heap.start + newSize = s.heap.end_ + sz + 4096 := by omega
  have hloops : s.heap.end_ - s.heap.start + 4096 * (sz / 4096 + 1) = newSize := by omega
  obtain ⟨s₁, hloop, hh, hmax₁, hbot, htop, htab, hsame⟩ :=
    expandLoop_spec (s := s) (n := chainFuel) hloops (by unfold chainFuel; omega) (by omega) (by omega)
      (by omega) (by omega)
      (fun j hj => by
        rw [hfirst]
        exact P.unmapped _ (by omega) (by omega))
      fun j hj => Grown.frame_mod P (by omega)
  rw [hfirst] at htab hsame
  rw [Nat.add_assoc] at hstop
  obtain ⟨h', hgrow, hs, he, hw, hv, hbelow'⟩ := growWild_spec (s := s₁) (hh ▸ P.fits)
    (by rw [hh, ← Nat.add_assoc]; exact hlt) (hh ▸ hstop)
  rw [hh] at hs he hw hv hbelow'
  have hpages := pages_succ hsz
  refine ⟨{ s₁ with heap := h' }, ?_, ?_⟩
  · rw [expand_eq P hsz hlt hmax hnew hloop, hgrow]
  · exact {
      enough := hstack
      start := hs
      end_ := by rw [he, hpages]
      lt := by
        rw [he, ← Nat.add_assoc]
        exact hlt
      wild := hw
      size := by rw [hv, hpages]
      below := hbelow'
      max := hmax₁
      bottom := hbot
      top := htop
      new := htab
      old := hsame }

/-! ## Shrinking -/

/-- `contract` gives no page back when the last page of the heap begins at the new end, whatever `alloc`
it could come back to. -/
lemma contractWith_still {again : State → Nat → Except Fault (State × Nat)} {newSize : Nat}
    (hnew : sub32 (sub32 s.heap.end_ s.heap.start) sz = newSize)
    (hbit : newSize &&& 0x1000 = 0) (hmin : minHeapSize ≤ newSize)
    (hlast : sub32 (sub32 s.heap.end_ s.heap.start) 0x1000 ≤ newSize) :
    contractWith again s sz = .ok (shrinkWild s sz newSize) := by
  obtain ⟨n, hn⟩ : ∃ n, chainFuel = n + 1 := ⟨4294967295, rfl⟩
  rw [contractWith, hnew]
  simp only [hbit, ne_eq, not_true_eq_false, if_false, if_neg (Nat.not_lt.mpr hmin)]
  rw [hn, contractLoop, if_neg (Nat.not_lt.mpr hlast)]
  rfl

/-- A size of an even number of pages passes the mask of `contract`. -/
lemma and_page {n : Nat} (h : n / 4096 % 2 = 0) : n &&& 0x1000 = 0 := by
  have hbit : n.testBit 12 = false := by
    rw [Nat.testBit_eq_decide_div_mod_eq, decide_eq_false_iff_not]
    omega
  rw [show 0x1000 = 2 ^ 12 from rfl, Nat.and_two_pow, hbit]
  rfl

/-- `contract(heap, 0)` on an even number of at least 16 pages. -/
lemma contract_grown (P : Paged s) (hmin : minHeapSize ≤ s.heap.end_ - s.heap.start)
    (heven : (s.heap.end_ - s.heap.start) / 4096 % 2 = 0) :
    ∃ s', contract s 0 = .ok s' ∧ Grown s s' 0 := by
  have hpos := P.size_pos
  have hlt := P.lt
  have hold : sub32 s.heap.end_ s.heap.start = s.heap.end_ - s.heap.start :=
    sub32_eq (by omega) (by omega)
  have hnew : sub32 (sub32 s.heap.end_ s.heap.start) 0 = s.heap.end_ - s.heap.start := by
    rw [hold, sub32_eq (Nat.zero_le _) (by omega), Nat.sub_zero]
  have hstop : s.heap.start + (s.heap.end_ - s.heap.start) = s.heap.end_ := by omega
  obtain ⟨h', hshrink, hs, he, hw, hv, hbelow⟩ := shrinkWild_zero P.fits hlt hstop
  refine ⟨{ s with heap := h' }, ?_, ?_⟩
  · rw [contract, contractWith_still hnew (and_page heven) hmin ?_, hshrink]
    rw [hold, sub32_eq (by omega) (by omega)]
    omega
  · exact {
      P.grown_self with
      start := hs
      end_ := he
      lt := by
        rw [he]
        exact hlt
      wild := hw
      size := hv
      below := hbelow }

/-! ## Runs -/

/-- A harmless call makes the heap larger by whole pages, if at all. -/
lemma resize_grown {c : Resize} (P : Paged s) (hl : Legal s c) (hc : Harmless s c) :
    ∃ s' n, resize s c = .ok s' ∧ Grown s s' n := by
  cases c with
  | expand sz =>
    by_cases hmax : maxedOut s sz = true
    · exact ⟨s, 0, by rw [resize, expand_maxedOut hmax]; rfl, P.grown_self⟩
    · obtain ⟨hlt, hstack⟩ := hc.resolve_left hmax
      obtain ⟨s', hrun, G⟩ := expand_grown P hl.1 hlt hstack hmax
      exact ⟨s', _, by rw [resize, hrun]; rfl, G⟩
  | contract sz =>
    obtain ⟨rfl, hmin, heven⟩ := hc
    obtain ⟨s', hrun, G⟩ := contract_grown P hmin heven
    exact ⟨s', 0, hrun, G⟩

/-- In a run of harmless calls the last block, the end of the heap, its pages and their frames stay
together. -/
theorem resized_always {l : List Resize} (P : Paged s₀) (hl : LegalRun resize Legal s₀ l)
    (hh : LegalRun resize Harmless s₀ l) : Always resize (Resized s₀) s₀ l := by
  refine always_of_inv (I := fun s => Paged s ∧ Resized s₀ s) ?_ (fun _ h => h.2) ⟨P, P.resized⟩
    (hl.and hh)
  rintro s c ⟨P, R⟩ ⟨hl, hc⟩
  obtain ⟨s', n, hrun, G⟩ := resize_grown P hl hc
  exact ⟨s', hrun, G.paged P, G.resized P R⟩

end

/-- A heap of 17 pages, which is one block, and a frame stack of one frame. -/
def seventeen : State where
  heap := {
    mem := writeWord (writeWord (writeWord (fun _ => 0) 0x100004 0x10FEC) 0x110FFC 0x100000) 0x1004 0x5000
    start := 0x100000
    end_ := 0x111000
    bins := fun _ => 0 }
  max := 0x200000
  dir := fun _ => true
  tables k := if 0x100 ≤ k ∧ k < 0x111 then 4096 * k + 7 else 0
  top := 0x1004
  bottom := 0x1000
  placementAddr := 0
  kheapInit := true

/-- The heap of 17 pages is one of whole pages. -/
lemma seventeen_paged : Paged seventeen where
  startAligned := by decide
  endAligned := by decide
  lt := by decide
  wild := by decide
  fits := by decide
  mapped k hk hlt := by
    show (if 0x100 ≤ k ∧ k < 0x111 then 4096 * k + 7 else 0) % 2 = 1
    rw [if_pos ⟨hk, hlt⟩]
    omega
  unmapped k hk _ := if_neg fun h => absurd h.2 (Nat.not_lt.mpr hk)
  stack := by decide
  frames := by decide

/-- The frame becomes the one of a further page. -/
theorem resized_always_seventeen :
    Always resize (Resized seventeen) seventeen [.expand 0] :=
  resized_always seventeen_paged ⟨⟨by decide, by decide⟩, fun _ _ => trivial⟩
    ⟨.inr ⟨by decide, by decide⟩, fun _ _ => trivial⟩

/-- The last page keeps its frame when it is given back. -/
theorem not_resized_contract : Paged seventeen ∧ LegalRun resize Legal seventeen [.contract 0x1000] ∧
    ∃ s', contract seventeen 0x1000 = .ok s' ∧ ¬ Resized seventeen s' := by
  have hnew : sub32 (sub32 seventeen.heap.end_ seventeen.heap.start) 0x1000 = 0x10000 := by decide
  refine ⟨seventeen_paged, ⟨⟨by decide, by decide⟩, fun _ _ => trivial⟩, _,
    contractWith_still hnew (by decide) (by decide) (by decide), fun R => ?_⟩
  have hpage := (R.mapped 0x110 (by decide) (by decide)).mp (by decide)
  exact absurd hpage (by decide)

end ToeS.V1
