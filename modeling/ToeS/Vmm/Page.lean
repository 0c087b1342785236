import ToeS.Frames.Pmm

/-!
# Page entries

Model of `page_t` of `kern/inc/x86.h` and of `map_page` and `unmap_page` of `kern/mm/vmm.c`. The bits
`access`, `dirty` and `unused` are left out: no code reads or writes them.
-/

namespace ToeS.Vmm
open Lib Frames

instance neZero_frameCnt : NeZero 1048576 := ⟨by decide⟩
instance neZero_pgTabCnt : NeZero 1024 := ⟨by decide⟩

/-- The entry of a page table. `addr` holds the upper 20 bits of a frame address. -/
structure Page where
  present : Bool
  rw : Bool
  usr : Bool
  addr : Fin 1048576
  deriving DecidableEq

/-- What `memset` leaves. -/
def Page.zero : Page := ⟨false, false, false, 0⟩

/-- Gives the entry the frame of `addr`, or the first free frame when `addr` is 0
(C `map_page`). -/
def mapPage (frames : BitSet) (pg : Page) (usr write addr : Nat) : BitSet × Page :=
  let pg : Page := { pg with present := true, rw := write % 2 = 1, usr := usr = 0 }
  if pg.addr = 0 then
    if addr ≠ 0 then
      let (success, frames) := setFrame frames addr
      if success ≠ 0 then (frames, { pg with addr := Fin.ofNat _ (addr / pgSz) })
      else (frames, { pg with present := false })
    else
      let (frame, frames) := getFrame frames
      if frame ≠ noFrame then (frames, { pg with addr := Fin.ofNat _ (frame / pgSz) })
      else (frames, pg)
  else (frames, pg)

/-- Takes the frame from the entry (C `unmap_page`). -/
def unmapPage (frames : BitSet) (pg : Page) : BitSet × Page :=
  let pg : Page := { pg with present := false, rw := false, usr := false }
  if pg.addr ≠ 0 then (freeFrame frames pg.addr, { pg with addr := 0 })
  else (frames, pg)

section
variable {bs : BitSet} {pg : Page} {usr write addr idx : Nat}

/-- The entry after the attributes are set. -/
def Page.attr (pg : Page) (usr write : Nat) : Page :=
  { pg with present := true, rw := write % 2 = 1, usr := usr = 0 }

/-- The attributes leave the frame. -/
@[simp] lemma Page.attr_addr : (pg.attr usr write).addr = pg.addr := rfl

/-- The attributes make the page present. -/
@[simp] lemma Page.attr_present : (pg.attr usr write).present = true := rfl

/-- An entry that has a frame keeps it. -/
lemma mapPage_held (h : pg.addr ≠ 0) : mapPage bs pg usr write addr = (bs, pg.attr usr write) := by
  rw [mapPage, if_neg h]
  rfl

/-- With an address, an entry without a frame gets the frame of the address, used or not. -/
lemma mapPage_at (h : pg.addr = 0) (h0 : idx ≠ 0) (hidx : idx < bsGetSize bs) :
    mapPage bs pg usr write (idx * 4096) =
      (bsSet bs idx, { pg.attr usr write with addr := Fin.ofNat _ idx }) := by
  have hdiv : idx * 4096 / pgSz = idx := Nat.mul_div_cancel _ (by decide)
  rw [mapPage, if_pos h, if_pos (by omega), setFrame_of_lt hidx]
  simp only [ne_eq, one_ne_zero, not_false_eq_true, if_true, hdiv]
  rfl

/-- Without an address, an entry without a frame gets the first free frame, if there is one. -/
lemma mapPage_any (usr write : Nat) (h : pg.addr = 0) (hs : bs.sz * 32 < 4294967296) :
    mapPage bs pg usr write 0 = (bs, pg.attr usr write) ∧ (∀ k < bsGetSize bs, get bs k = true) ∨
      ∃ idx, idx < bsGetSize bs ∧ get bs idx = false ∧ (∀ k < idx, get bs k = true) ∧
        (idx < 1048576 → mapPage bs pg usr write 0 =
          (bsSet bs idx, { pg.attr usr write with addr := Fin.ofNat _ idx })) := by
  rcases getFrame_spec hs with ⟨hg, hfull⟩ | ⟨idx, hlt, hclr, hbelow, hg⟩
  · refine .inl ⟨?_, hfull⟩
    rw [mapPage, if_pos h, if_neg (by simp), hg]
    rfl
  · refine .inr ⟨idx, hlt, hclr, hbelow, fun hi => ?_⟩
    have hdiv : idx * 4096 / pgSz = idx := Nat.mul_div_cancel _ (by decide)
    rw [mapPage, if_pos h, if_neg (by simp), hg hi]
    simp only [ne_eq, frame_ne_noFrame, not_false_eq_true, if_true, hdiv]
    rfl

/-- The number of frames does not change. -/
lemma mapPage_sz : (mapPage bs pg usr write addr).1.sz = bs.sz := by
  simp only [mapPage]
  split
  · split
    · split <;> exact setFrame_sz
    · split <;> exact getFrame_sz
  · rfl

/-- A page with a frame gives it back. -/
lemma unmapPage_held (h : pg.addr ≠ 0) :
    unmapPage bs pg = (bsClr bs pg.addr, Page.zero) := by
  rw [unmapPage, if_pos h]
  rfl

/-- A page without a frame gives none back. -/
lemma unmapPage_free (h : pg.addr = 0) : unmapPage bs pg = (bs, Page.zero) := by
  rw [unmapPage, if_neg (by simpa using h), Page.zero, ← h]

/-- A frame number in range is stored as it is. -/
lemma ofNat_val (h : idx < 1048576) : (Fin.ofNat 1048576 idx).val = idx := Nat.mod_eq_of_lt h

end

/-! ## Failing -/

/-- `map_page` cannot get a frame: the address is out of range, or there is none and all frames are
used. -/
def NoFrame (bs : BitSet) (addr : Nat) : Prop :=
  addr ≠ 0 ∧ bsGetSize bs ≤ addr / 4096 ∨ addr = 0 ∧ ∀ k < bsGetSize bs, get bs k = true

section
variable {bs : BitSet} {pg : Page} {usr write addr : Nat}

/-- What is left of an entry without a frame: with an address it is not present but has the new
attributes, without one it is present. -/
lemma mapPage_noFrame (hs : bs.sz * 32 < 4294967296) (ha : pg.addr = 0) (h : NoFrame bs addr) :
    mapPage bs pg usr write addr =
      (bs, { pg.attr usr write with present := decide (addr = 0) }) := by
  rcases h with ⟨h0, hout⟩ | ⟨rfl, hfull⟩
  · have hset : setFrame bs addr = (0, bs) := by
      rw [setFrame, pgSz_eq, if_neg (by omega)]
    rw [mapPage, if_pos ha, if_pos h0, hset, decide_eq_false h0]
    rfl
  · rcases mapPage_any usr write ha hs with ⟨hm, -⟩ | ⟨idx, hlt, hclr, -⟩
    · rw [hm]
      rfl
    · rw [hfull idx hlt] at hclr
      cases hclr

/-- When `map_page` cannot get a frame for an entry that is not present, it leaves the entry and the
bitset as they were exactly when it was given an address and the attributes that the entry has: the
attributes are set first and not taken back, and without an address the entry stays present. -/
theorem mapPage_noFrame_iff (hs : bs.sz * 32 < 4294967296) (hp : pg.present = false)
    (ha : pg.addr = 0) :
    (NoFrame bs addr → mapPage bs pg usr write addr = (bs, pg)) ↔
      (NoFrame bs addr → addr ≠ 0 ∧ pg.rw = decide (write % 2 = 1) ∧ pg.usr = decide (usr = 0)) := by
  refine imp_congr_right fun h => ?_
  rw [mapPage_noFrame hs ha h]
  obtain ⟨present, rw', usr', addr'⟩ := pg
  obtain rfl : present = false := hp
  simp only [Page.attr, Prod.mk.injEq, true_and, Page.mk.injEq, decide_eq_false_iff_not, and_true]
  rw [eq_comm (a := rw'), eq_comm (a := usr')]

end

/-- A bitset of 32 frames that are all used. -/
def fullBits : BitSet := ⟨1, #v[0xffffffff#32]⟩

/-- A full bitset has no frame. -/
lemma noFrame_full : NoFrame fullBits 0 := .inr ⟨rfl, by decide⟩

/-- An empty entry and a full bitset. -/
theorem mapPage_noFrame_iff_full :
    (NoFrame fullBits 0 → mapPage fullBits Page.zero 1 1 0 = (fullBits, Page.zero)) ↔
      (NoFrame fullBits 0 → 0 ≠ 0 ∧ Page.zero.rw = decide (1 % 2 = 1) ∧
        Page.zero.usr = decide (1 = 0)) :=
  mapPage_noFrame_iff (by decide) rfl rfl

/-- An entry that is left present, without a frame. -/
theorem mapPage_full_present :
    NoFrame fullBits 0 ∧ mapPage fullBits Page.zero 1 1 0 = (fullBits, ⟨true, true, false, 0⟩) ∧
      mapPage fullBits Page.zero 1 1 0 ≠ (fullBits, Page.zero) := by
  have hrun : mapPage fullBits Page.zero 1 1 0 = (fullBits, ⟨true, true, false, 0⟩) := by
    rw [mapPage_noFrame (by decide) rfl noFrame_full]
    rfl
  refine ⟨noFrame_full, hrun, fun h => ?_⟩
  have h := congrArg (fun r => r.2.present) (hrun.symm.trans h)
  cases h

end ToeS.Vmm
