import ToeS.Boot.Loops

/-!
# What boot takes from the bitset

The frames that were used before the second loop of `vmm_init` are used after it, and each of its
rounds takes one frame at most.
-/

namespace ToeS.Boot
open Lib Frames Vmm

section
variable {s s' : State Bump} {bs bs' bs'' : BitSet} {n n' : Nat}

/-- One bitset comes from another by taking `n` frames at most. -/
structure Taken (n : Nat) (bs bs' : BitSet) : Prop where
  sz : bs'.sz = bs.sz
  kept : ∀ f, get bs f = true → get bs' f = true
  free : freeCnt bs ≤ freeCnt bs' + n

/-- No frame is taken. -/
lemma Taken.refl (n : Nat) (bs : BitSet) : Taken n bs bs := ⟨rfl, fun _ => id, Nat.le_add_right ..⟩

/-- What two steps take is taken by both together. -/
lemma Taken.trans (h : Taken n bs bs') (h' : Taken n' bs' bs'') : Taken (n' + n) bs bs'' where
  sz := h'.sz.trans h.sz
  kept f hf := h'.kept f (h.kept f hf)
  free := (h.free.trans (Nat.add_le_add_right h'.free n)).trans_eq (Nat.add_assoc ..)

/-- A bit is one frame. -/
lemma taken_set {idx : Nat} (h : idx < bsGetSize bs) : Taken 1 bs (bsSet bs idx) :=
  ⟨sz_set, fun f hf => by rw [get_set h, hf, Bool.true_or], freeCnt_set h⟩

/-- `get_frame` takes one frame. -/
lemma taken_getFrame (hs : bs.sz * 32 < 4294967296) : Taken 1 bs (getFrame bs).2 := by
  by_cases h : ∃ k < bsGetSize bs, get bs k = false
  · obtain ⟨hlt, -, -, hrun⟩ := getFrame_clear hs h
    rw [hrun]
    exact taken_set ((Nat.mod_le ..).trans_lt hlt)
  · rcases getFrame_spec hs with ⟨hrun, -⟩ | ⟨idx, hlt, hclr, -⟩
    · rw [hrun]
      exact .refl 1 bs
    · exact (h ⟨idx, hlt, hclr⟩).elim

/-- `map_page` takes one frame at most. -/
lemma taken_mapPage (pg : Page) (hs : bs.sz * 32 < 4294967296) :
    Taken 1 bs (Vmm.mapPage bs pg 1 1 0).1 := by
  rw [Vmm.mapPage]
  split
  · simp only [ne_eq, not_true_eq_false, if_false]
    split <;> exact taken_getFrame hs
  · exact .refl 1 bs

/-- `get_page` takes none. -/
lemma getPage_frames {va create dir : Nat} :
    (s.getPage kmallocAp va create dir).2.frames = s.frames := by
  unfold State.getPage
  split
  · rfl
  · split
    · simp only [State.setEntry, State.setDir, State.setTab, State.alloc]
    · rfl

/-- A page of the kernel heap takes a frame at most. -/
lemma taken_heapPage {i : Nat} (hs : s.frames.sz * 32 < 4294967296) (h : heapPage s i = .ok s') :
    Taken 1 s.frames s'.frames := by
  obtain ⟨⟨pg, t⟩, hmap, ht⟩ := bind_ok.mp h
  cases ht
  rw [State.mapAt] at hmap
  generalize kheapStart + i * pgSz = va at hmap
  have hget : (s.getPage kmallocAp va 1 s.kernDir).2.frames = s.frames := getPage_frames
  cases hp : s.getPage kmallocAp va 1 s.kernDir with
  | mk found u =>
    rw [hp] at hmap hget
    cases found with
    | none => cases hmap
    | some found =>
      cases hmap
      have hget : u.frames = s.frames := hget
      show Taken 1 s.frames (Vmm.mapPage u.frames _ 1 1 0).1
      rw [hget]
      exact taken_mapPage _ hs

/-- The pages of the heap take one each. -/
lemma taken_heapPages {l : List Nat} (hs : s.frames.sz * 32 < 4294967296)
    (h : exec heapPage s l = .ok s') : Taken l.length s.frames s'.frames := by
  induction l generalizing s with
  | nil =>
    cases h
    exact .refl 0 _
  | cons i l ih =>
    obtain ⟨t, ht, h⟩ := exec_cons_ok.mp h
    have T := taken_heapPage hs ht
    exact T.trans (ih (T.sz ▸ hs) h)

/-- Page 0 takes frames, and gives none back. -/
lemma page0_kept {m : Machine} {f : Nat} (h : get m.frames f = true) : get (page0 m).1 f = true := by
  have hs : (setFrame m.frames 0).2.sz * 32 < 4294967296 := by
    rw [setFrame_sz]
    exact bsWords_lt m.frameCnt
  refine (taken_mapPage Page.zero hs).kept f ?_
  rw [setFrame]
  split
  · rename_i h0
    exact (taken_set h0).kept f h
  · exact h

end

/-- `vmm_init` returns; the frames of the second loop are taken on top of those of the first. -/
lemma boot_taken {m : Machine} (hend : kernOffset ≤ m.kernEnd) (hk : m.lastFrame < 65536)
    (hin : m.lastFrame < bsGetSize m.frames) :
    ∃ s₀ s₁, m.boot = .ok (s₁.switchPageDirectory s₁.kernDir) ∧
      KernInv m (page0 m).1 (page0 m).2 s₀ (m.lastFrame + 1) ∧ HeapInv s₀ s₁ heapPages ∧
      s₀.frames.sz = m.frames.sz ∧ Taken heapPages s₀.frames s₁.frames := by
  obtain ⟨s₀, s₁, hboot, K, H, hexec⟩ := boot_run hend hk hin
  have hsz : s₀.frames.sz = m.frames.sz := by
    rw [K.sz, page0, mapPage_sz, setFrame_sz]
  have T := taken_heapPages (hsz ▸ bsWords_lt m.frameCnt) hexec
  rw [List.length_range] at T
  exact ⟨s₀, s₁, hboot, K, H, hsz, T⟩

/-! ## From the bottom up -/

/-- The used frames are those below `n`. -/
def Filled (n : Nat) (bs : BitSet) : Prop := ∀ f, get bs f = true ↔ f < n

section
variable {s s' : State Bump} {s₀ : State Bump} {bs : BitSet} {n i k : Nat}

/-- With the next frame a prefix is filled still. -/
lemma Filled.set (F : Filled n bs) (hn : n < bsGetSize bs) : Filled (n + 1) (bsSet bs n) := by
  intro f
  rw [get_set hn, Bool.or_eq_true, F f, decide_eq_true_eq]
  omega

/-- A page that is mapped to any frame gets the next one. -/
lemma Filled.mapPage {pg : Page} (F : Filled n bs) (ha : pg.addr = 0) (hn : n < bsGetSize bs)
    (h20 : n < 1048576) (hs : bs.sz * 32 < 4294967296) :
    (Vmm.mapPage bs pg 1 1 0).1 = bsSet bs n := by
  have hclr : get bs n = false := by
    rw [← Bool.not_eq_true, F n]
    exact lt_irrefl n
  rcases mapPage_any 1 1 ha hs with ⟨-, hfull⟩ | ⟨idx, -, hidx, hbelow, hmap⟩
  · rw [hfull n hn] at hclr
    cases hclr
  · have hge : ¬ idx < n := fun h => by
      rw [(F idx).mpr h] at hidx
      cases hidx
    have hle : ¬ n < idx := fun h => by
      rw [hbelow n h] at hclr
      cases hclr
    obtain rfl : idx = n := by omega
    rw [hmap h20]

/-- The pages of the kernel heap get the next frames. -/
lemma Filled.heapPages (F : Filled n s.frames) (H : HeapInv s₀ s i) (hi : i + k = heapPages)
    (hn : n + k ≤ bsGetSize s.frames) (h20 : n + k ≤ 1048576) (hs : s.frames.sz * 32 < 4294967296)
    (hal : s₀.heap.allocPtr % 4096 = 0) (hroom : s₀.heap.allocPtr + 16384 < 4294967296)
    (hno : ∀ j : Fin 1024, HasTab s₀ j → j.val < 832)
    (hzero : ∀ p < 1048576, heapBase ≤ p → pte s₀ p = Page.zero)
    (h : exec heapPage s (List.range' i k) = .ok s') : Filled (n + k) s'.frames := by
  induction k generalizing s n i with
  | zero =>
    cases h
    exact F
  | succ k ih =>
    have hi' : i < 257 := by
      have : heapPages = 257 := rfl
      omega
    have hq : heapBase + i < 1048576 := by unfold heapBase; omega
    have hva : kheapStart + i * pgSz = (heapBase + i) * 4096 := by
      unfold kheapStart heapBase
      rw [pgSz_eq]
      omega
    have hptr := H.ptr
    obtain ⟨p, s₁, hmap, M⟩ := mapAt_spec (a := 0) H.wf hq (by split at hptr <;> omega)
    have hz : pte s (heapBase + i) = Page.zero := by
      rw [H.old _ hq (by omega), hzero _ hq (by omega)]
    have hframes : s₁.frames = bsSet s.frames n := by
      rw [M.frames, F.mapPage (by rw [hz]; rfl) (by omega) (by omega) hs]
    obtain ⟨t, ht, H'⟩ := H.step (by omega) hal hroom hno hzero
    have hrun : heapPage s i = .ok s₁ := by
      rw [heapPage, hva, hmap]
      rfl
    obtain rfl : t = s₁ := Except.ok.inj (ht.symm.trans hrun)
    rw [List.range'_succ, exec_cons hrun] at h
    have hsize : bsGetSize t.frames = bsGetSize s.frames := by rw [hframes, bsGetSize_set]
    have hfill := ih (hframes ▸ F.set (by omega)) H' (by omega) (by omega) (by omega)
      (by rw [hframes, sz_set]; exact hs) h
    rwa [Nat.add_right_comm, Nat.add_assoc] at hfill

/-- When no frame was used, boot leaves the ones that it used at the bottom. -/
lemma boot_filled {m : Machine} (hend : kernOffset ≤ m.kernEnd) (hk : m.lastFrame < 65536)
    (hin : m.lastFrame + 1 + heapPages ≤ bsGetSize m.frames) (h0 : Filled 0 m.frames) :
    ∃ s, m.boot = .ok (s.switchPageDirectory s.kernDir) ∧ Wf s ∧
      s.heap.allocPtr ≤ kernOffset + 4096 * (m.lastFrame + 1) ∧
      s.frames.sz = m.frames.sz ∧ Filled (m.lastFrame + 1 + heapPages) s.frames := by
  have hpages : heapPages = 257 := rfl
  have hstop : 6 ≤ m.firstStop := Nat.le_add_left ..
  have hstop' : m.firstStop ≤ m.lastFrame := Nat.le_add_right ..
  obtain ⟨s₀, s₁, hboot, K, H, hexec⟩ := boot_run hend hk (by omega)
  have hsz : s₀.frames.sz = m.frames.sz := by
    rw [K.sz, page0, mapPage_sz, setFrame_sz]
  have hbits : m.frames.sz * 32 < 4294967296 := bsWords_lt m.frameCnt
  have hset : (setFrame m.frames 0).2 = bsSet m.frames 0 := by
    have h := @setFrame_of_lt m.frames 0 (by omega)
    rw [Nat.zero_mul] at h
    rw [h]
  have h1 : Filled 1 (setFrame m.frames 0).2 := hset ▸ h0.set (by omega)
  have h2 : Filled 2 (page0 m).1 := by
    have hsize : bsGetSize (setFrame m.frames 0).2 = bsGetSize m.frames := by
      rw [hset, bsGetSize_set]
    rw [page0, h1.mapPage rfl (by omega) (by omega) (by rw [setFrame_sz]; exact hbits)]
    exact h1.set (by omega)
  have hF : Filled (m.lastFrame + 1) s₀.frames := by
    intro f
    rw [K.bits, h2 f]
    omega
  have hptr := K.ptr
  have hsize : bsGetSize s₀.frames = bsGetSize m.frames := by rw [bsGetSize, hsz, ← bsGetSize]
  refine ⟨s₁, hboot, H.wf, ?_, ?_, ?_⟩
  · have hptr₁ := H.ptr
    rw [if_neg (by omega)] at hptr₁
    unfold Machine.lastFrame at hk hptr ⊢
    omega
  · exact (taken_heapPages (hsz ▸ hbits) hexec).sz.trans hsz
  · rw [List.range_eq_range'] at hexec
    refine hF.heapPages (.refl K.wf) (Nat.zero_add _) (by omega) (by omega) (hsz ▸ hbits)
      (by unfold kernOffset at hptr; omega) (by unfold kernOffset at hptr; omega) (fun j hj => ?_)
      (fun p hp hge => K.rest p hp (by unfold heapBase kernPage at *; omega)) hexec
    have := (K.tabs j).mp hj
    omega

end

end ToeS.Boot
