import ToeS.Boot.Multiboot

/-!
# The frames that exist

`bs_init` rounds the number of frames up to whole words, and gives a multiple of 32 a word more, so
that the bitset always has bits for frames that do not exist. `get_frame` searches all of them. Over
runs from the bitset that `pmm_init` leaves, `handsOut_iff` says when it does as it should with the
frames that exist, and `noWrap_iff` when its multiplication and the division of `set_frame` undo each
other.
-/

namespace ToeS.Boot
open Lib Frames

/-! ## The size of the bitset -/

section
variable {e : MbootMemmap} {bs bs' : BitSet} {m : Mem}

/-- The loop over a region leaves the size of the bitset. -/
lemma markRegion_sz {n i : Nat} (h : markRegion e n i bs = .ok bs') : bs'.sz = bs.sz := by
  induction n generalizing i bs with
  | zero => cases h
  | succ n ih =>
    have ha : ¬ u32 (e.baseAddr + i) > 0xffffffff := by
      have := u32_lt (e.baseAddr + i)
      omega
    rw [markRegion] at h
    split at h
    · simp only [if_neg ha] at h
      exact (ih h).trans sz_set
    · cases h
      rfl

/-- The loop over the map leaves the size of the bitset. -/
lemma mmapLoop_sz {stop n mmap : Nat} (h : mmapLoop m stop n mmap bs = .ok bs') :
    bs'.sz = bs.sz := by
  induction n generalizing mmap bs with
  | zero => cases h
  | succ n ih =>
    rw [mmapLoop] at h
    split at h
    · obtain ⟨bs₁, h₁, h⟩ := bind_ok.mp h
      refine (ih h).trans ?_
      unfold markEntry at h₁
      split at h₁
      · exact markRegion_sz h₁
      · cases h₁
        rfl
    · cases h
      rfl

/-- Whatever the memory map, `pmm_init` returns a bitset of the size it asked for. -/
lemma pmmInit_sz {mb : Multiboot} {bits : Vector (BitVec 32) (bsWords mb.frameCnt)}
    (h : pmmInit m mb bits = .ok bs) : bs.sz = bsWords mb.frameCnt :=
  mmapLoop_sz h

/-- There is always a bit too many, at most 32. -/
lemma lt_bsWords {n : Nat} (hn : n < 4294967264) :
    n < bsWords n * 32 ∧ bsWords n * 32 ≤ n / 32 * 32 + 32 := by
  simp only [bsWords]
  rw [u32_eq (by omega)]
  omega

end

/-! ## Running out of frames -/

/-- What `get_frame` is asked for with `n` frames: it returns the address of the lowest free one of
them and sets its bit, or fails and changes nothing, and fails exactly when all are used. -/
structure GetsReal (n : Nat) (bs : BitSet) : Prop where
  result : getFrame bs = (noFrame, bs) ∨ ∃ idx < n, get bs idx = false ∧
    (∀ k < idx, get bs k = true) ∧ (getFrame bs).1 = idx * pgSz ∧
      ∀ k, get (getFrame bs).2 k = (get bs k || decide (k = idx))
  fails : (getFrame bs).1 = noFrame ↔ ∀ k < n, get bs k = true

/-- One of the first `n` frames is free, or no bit of the whole bitset is clear. -/
def RealLeft (n : Nat) (bs : BitSet) : Prop :=
  (∃ k < n, get bs k = false) ∨ ∀ k < bsGetSize bs, get bs k = true

instance (n : Nat) (bs : BitSet) : Decidable (RealLeft n bs) :=
  inferInstanceAs (Decidable (_ ∨ _))

section
variable {n : Nat} {bs : BitSet}

/-- A frame is handed out when a real one is left. -/
lemma getsReal_iff (hn : n ≤ 1048576) (hsz : bs.sz = bsWords n) :
    GetsReal n bs ↔ RealLeft n bs := by
  have hs : bs.sz * 32 < 4294967296 := hsz ▸ bsWords_lt n
  have hcap : n < bsGetSize bs := by
    rw [bsGetSize, u32_eq hs, hsz]
    exact (lt_bsWords (by omega)).1
  by_cases hfull : ∀ k < bsGetSize bs, get bs k = true
  · have hrun : getFrame bs = (noFrame, bs) := by
      rcases getFrame_spec hs with ⟨hrun, -⟩ | ⟨idx, hlt, hclr, -⟩
      · exact hrun
      · rw [hfull idx hlt] at hclr
        cases hclr
    refine iff_of_true ⟨.inl hrun, ?_⟩ (.inr hfull)
    rw [hrun]
    exact iff_of_true rfl fun k hk => hfull k (by omega)
  · have hfree : ∃ k < bsGetSize bs, get bs k = false := by
      push Not at hfull
      simpa using hfull
    obtain ⟨hlt, hclr, hbelow, hrun⟩ := getFrame_clear hs hfree
    have hne : (getFrame bs).1 ≠ noFrame := by
      rw [hrun]
      unfold u32 noFrame
      omega
    constructor
    · intro h
      refine .inl ?_
      by_contra hall
      push Not at hall
      exact hne (h.fails.mpr (by simpa using hall))
    · intro h
      obtain ⟨k, hk, hkc⟩ := h.resolve_right hfull
      have hle : bsFirstClr bs ≤ k := by
        by_contra hlt
        rw [hbelow k (by omega)] at hkc
        cases hkc
      have h20 : bsFirstClr bs < 1048576 := by omega
      refine ⟨.inr ⟨bsFirstClr bs, by omega, hclr, hbelow, ?_, fun j => ?_⟩, ?_⟩
      · rw [hrun]
        exact u32_eq (by omega)
      · rw [hrun, Nat.mod_eq_of_lt h20]
        exact get_set hlt
      · refine iff_of_false hne fun hall => ?_
        rw [hall k hk] at hkc
        cases hkc

end

/-- The bitset, and what `get_frame` has returned so far. -/
structure FrameSys where
  frames : BitSet
  out : List Nat

/-- A call on the bitset. -/
inductive FrameCall where
  | getFrame
  | setFrame (addr : Nat)
  | freeFrame (idx : Nat)

/-- The frames that are cleared were returned before. -/
def FrameSys.Legal (s : FrameSys) : FrameCall → Prop
  | .freeFrame idx => idx * pgSz ∈ s.out
  | _ => True

/-- One call. -/
def FrameSys.step (s : FrameSys) : FrameCall → Except Fault FrameSys
  | .getFrame =>
    let (addr, frames) := Frames.getFrame s.frames
    .ok ⟨frames, if addr = noFrame then s.out else addr :: s.out⟩
  | .setFrame addr => .ok { s with frames := (Frames.setFrame s.frames addr).2 }
  | .freeFrame idx => .ok { s with frames := Frames.freeFrame s.frames idx }

/-- The calls of `get_frame` do what they are asked for. -/
def FrameSys.Exact (n : Nat) (s : FrameSys) (c : FrameCall) : Prop :=
  c = .getFrame → GetsReal n s.frames

/-- `get_frame` is called while one of the frames is free or no bit is clear. -/
def FrameSys.InTime (n : Nat) (s : FrameSys) (c : FrameCall) : Prop :=
  c = .getFrame → RealLeft n s.frames

/-- No call changes the size of the bitset. -/
lemma FrameSys.step_sz {s s' : FrameSys} {c : FrameCall} (h : s.step c = .ok s') :
    s'.frames.sz = s.frames.sz := by
  cases c with
  | getFrame =>
    cases h
    exact getFrame_sz
  | setFrame addr =>
    cases h
    exact setFrame_sz
  | freeFrame idx =>
    cases h
    exact sz_clr

/-- In every run of `get_frame`, `set_frame` and clearing of returned frames after `pmm_init`, with at
most `2 ^ 20` frames, all calls of `get_frame` do what they are asked for exactly when each is made
while one of the frames is free or no bit of the bitset, surplus ones included, is clear. -/
theorem handsOut_iff {m : Mem} {mb : Multiboot} {bits : Vector (BitVec 32) (bsWords mb.frameCnt)}
    {bs : BitSet} (hn : mb.frameCnt ≤ 1048576) (h : pmmInit m mb bits = .ok bs) {l : List FrameCall}
    (hl : LegalRun FrameSys.step FrameSys.Legal ⟨bs, []⟩ l) :
    LegalRun FrameSys.step (FrameSys.Exact mb.frameCnt) ⟨bs, []⟩ l ↔
      LegalRun FrameSys.step (FrameSys.InTime mb.frameCnt) ⟨bs, []⟩ l := by
  refine hl.iff_of_inv (I := fun s => s.frames.sz = bsWords mb.frameCnt) (fun s c hs _ => ?_)
    (fun s c s' hs _ _ h => (FrameSys.step_sz h).trans hs) (pmmInit_sz h)
  exact imp_congr_right fun _ => getsReal_iff hn hs

/-- A machine with one frame and an empty memory map. -/
def oneFrame : Multiboot := ⟨4, 0, 0, 0⟩

/-- A machine of one frame without a map. -/
lemma pmmInit_oneFrame :
    pmmInit (fun _ => 0) oneFrame (clearBits _) = .ok ⟨bsWords 1, clearBits _⟩ :=
  mmapLoop_nil (n := 4294967295) rfl

/-- Its first request. -/
theorem handsOut_iff_one :
    LegalRun FrameSys.step (FrameSys.Exact 1) ⟨⟨bsWords 1, clearBits _⟩, []⟩ [.getFrame] ↔
      LegalRun FrameSys.step (FrameSys.InTime 1) ⟨⟨bsWords 1, clearBits _⟩, []⟩ [.getFrame] :=
  handsOut_iff (by decide) pmmInit_oneFrame ⟨trivial, fun _ _ => trivial⟩

/-- The second call hands out frame 1. -/
theorem not_exact_one :
    pmmInit (fun _ => 0) oneFrame (clearBits _) = .ok ⟨bsWords 1, clearBits _⟩ ∧
      LegalRun FrameSys.step FrameSys.Legal ⟨⟨bsWords 1, clearBits _⟩, []⟩ [.getFrame, .getFrame] ∧
      ¬ LegalRun FrameSys.step (FrameSys.Exact oneFrame.frameCnt) ⟨⟨bsWords 1, clearBits _⟩, []⟩
        [.getFrame, .getFrame] := by
  refine ⟨pmmInit_oneFrame, ⟨trivial, fun _ _ => ⟨trivial, fun _ _ => trivial⟩⟩, fun h => ?_⟩
  have hreal := (getsReal_iff (by decide) rfl).mp ((h.2 _ rfl).1 rfl)
  revert hreal
  decide

/-! ## Beyond 4 GiB -/

/-- `n` calls of `get_frame`: what they return, and the bitset after them. -/
def getFrames : Nat → BitSet → List Nat × BitSet
  | 0, bs => ([], bs)
  | n + 1, bs =>
    let (addr, bs) := getFrame bs
    let (l, bs) := getFrames n bs
    (addr :: l, bs)

/-- What the calls that succeed return. -/
def successes (l : List Nat) : List Nat := l.filter (· ≠ noFrame)

/-- No two calls that succeed return the same address, and the multiplication of `get_frame` and the
division of `set_frame` undo each other on all indices of the bitset. -/
structure NoWrap (bs : BitSet) : Prop where
  inverse : ∀ idx < bsGetSize bs, u32 (idx * pgSz) / pgSz = idx
  distinct : ∀ n, (successes (getFrames n bs).1).Nodup

section
variable {n : Nat} {bs bs' : BitSet}

/-- An answer other than the error value counts. -/
lemma successes_cons_ne {a : Nat} {l : List Nat} (h : a ≠ noFrame) :
    successes (a :: l) = a :: successes l := by simp [successes, h]

/-- The error value does not count. -/
lemma successes_cons_noFrame {l : List Nat} : successes (noFrame :: l) = successes l := by
  simp [successes]

/-- In a small bitset every index is below `2 ^ 20`. -/
lemma idx_lt_of_small {idx : Nat} (hs : bs.sz * 32 ≤ 1048576) (h : idx < bsGetSize bs) :
    idx < 1048576 :=
  h.trans_le ((u32_le _).trans hs)

/-- In a bitset for at most 4 GiB, what is returned are addresses of free frames. -/
lemma successes_clear (bs : BitSet) (hs : bs.sz * 32 ≤ 1048576) :
    ∀ a ∈ successes (getFrames n bs).1, ∃ idx, a = idx * 4096 ∧ get bs idx = false := by
  induction n generalizing bs with
  | zero =>
    intro a ha
    cases ha
  | succ n ih =>
    simp only [getFrames]
    rcases getFrame_spec (show bs.sz * 32 < 4294967296 by omega) with
      ⟨hrun, -⟩ | ⟨idx, hlt, hclr, -, hrun⟩
    · rw [hrun, successes_cons_noFrame]
      exact ih bs hs
    · have hidx : idx < 1048576 := idx_lt_of_small hs hlt
      rw [hrun hidx, successes_cons_ne frame_ne_noFrame]
      intro a ha
      rcases List.mem_cons.mp ha with rfl | ha
      · exact ⟨idx, rfl, hclr⟩
      · obtain ⟨j, rfl, hj⟩ := ih (bsSet bs idx) (by rwa [sz_set]) a ha
        rw [get_set hlt, Bool.or_eq_false_iff] at hj
        exact ⟨j, rfl, hj.1⟩

/-- There, they are distinct. -/
lemma successes_nodup (hs : bs.sz * 32 ≤ 1048576) : (successes (getFrames n bs).1).Nodup := by
  induction n generalizing bs with
  | zero => exact List.nodup_nil
  | succ n ih =>
    simp only [getFrames]
    rcases getFrame_spec (show bs.sz * 32 < 4294967296 by omega) with
      ⟨hrun, -⟩ | ⟨idx, hlt, hclr, -, hrun⟩
    · rw [hrun, successes_cons_noFrame]
      exact ih hs
    · have hidx : idx < 1048576 := idx_lt_of_small hs hlt
      have hs' : (bsSet bs idx).sz * 32 ≤ 1048576 := by rwa [sz_set]
      rw [hrun hidx, successes_cons_ne frame_ne_noFrame]
      refine List.nodup_cons.mpr ⟨fun ha => ?_, ih hs'⟩
      obtain ⟨j, he, hj⟩ := successes_clear _ hs' _ ha
      obtain rfl : idx = j := Nat.eq_of_mul_eq_mul_right (by decide) he
      rw [get_set hlt] at hj
      simp at hj

/-- The free frames below 4 GiB. -/
def lowFree (bs : BitSet) : Finset Nat := (Finset.range 1048576).filter fun k => get bs k = false

/-- The frames that can be handed out. -/
lemma mem_lowFree {k : Nat} : k ∈ lowFree bs ↔ k < 1048576 ∧ get bs k = false := by
  rw [lowFree, Finset.mem_filter, Finset.mem_range]

/-- Once they are used up, a free frame beyond 4 GiB is returned over and over: its bit is never set. -/
lemma repeats_high (bs : BitSet) (hs : bs.sz * 32 < 4294967296)
    (hhigh : ∃ idx, 1048576 ≤ idx ∧ idx < bsGetSize bs ∧ get bs idx = false) :
    ∃ n, ¬ (successes (getFrames n bs).1).Nodup := by
  obtain ⟨c, hc⟩ : ∃ c, (lowFree bs).card = c := ⟨_, rfl⟩
  induction c generalizing bs with
  | zero =>
    obtain ⟨idx, h20, hidx, hclr⟩ := hhigh
    have hlow : ∀ k < 1048576, get bs k = true := by
      intro k hk
      by_contra hb
      have hmem : k ∈ lowFree bs := mem_lowFree.mpr ⟨hk, by simpa using hb⟩
      rw [Finset.card_eq_zero.mp hc] at hmem
      cases hmem
    obtain ⟨hlt, hclr, hbelow, hrun⟩ := getFrame_clear hs ⟨idx, hidx, hclr⟩
    -- the bit that is set was set, so that the search finds the same frame again
    obtain ⟨bs₁, hbs₁⟩ : ∃ bs₁, bs₁ = bsSet bs (bsFirstClr bs % 1048576) := ⟨_, rfl⟩
    have hget : ∀ k, get bs₁ k = get bs k := by
      intro k
      rw [hbs₁, get_set (by omega)]
      by_cases hk : k = bsFirstClr bs % 1048576
      · rw [hk, hlow _ (by omega)]
        rfl
      · simp [hk]
    have hs₁ : bs₁.sz = bs.sz := by rw [hbs₁, sz_set]
    have hsize : bsGetSize bs₁ = bsGetSize bs := by rw [bsGetSize, hs₁, bsGetSize]
    have hfree₁ : ∃ k < bsGetSize bs₁, get bs₁ k = false := ⟨idx, by rwa [hsize], by rwa [hget]⟩
    obtain ⟨-, hclr₁, hbelow₁, hrun₁⟩ := getFrame_clear (by rwa [hs₁]) hfree₁
    have hsame : bsFirstClr bs₁ = bsFirstClr bs := by
      rcases lt_trichotomy (bsFirstClr bs₁) (bsFirstClr bs) with h | h | h
      · rw [hget, hbelow _ h] at hclr₁
        cases hclr₁
      · exact h
      · have := hbelow₁ _ h
        rw [hget, hclr] at this
        cases this
    have hne : u32 (bsFirstClr bs * 4096) ≠ noFrame := by
      unfold u32 noFrame
      omega
    refine ⟨2, ?_⟩
    simp only [getFrames]
    rw [hrun, ← hbs₁, hrun₁, hsame, successes_cons_ne hne, successes_cons_ne hne]
    simp
  | succ c ih =>
    obtain ⟨idx, h20, hidx, hclr⟩ := hhigh
    obtain ⟨k, hk⟩ := Finset.card_pos.mp (show 0 < (lowFree bs).card by omega)
    obtain ⟨hk20, hkc⟩ := mem_lowFree.mp hk
    obtain ⟨hlt, hclr₁, hbelow, hrun⟩ := getFrame_clear hs ⟨idx, hidx, hclr⟩
    have hle : bsFirstClr bs ≤ k := by
      by_contra hlt
      rw [hbelow k (by omega)] at hkc
      cases hkc
    rw [Nat.mod_eq_of_lt (by omega)] at hrun
    have hlow : lowFree (bsSet bs (bsFirstClr bs)) = (lowFree bs).erase (bsFirstClr bs) := by
      ext j
      rw [Finset.mem_erase, mem_lowFree, mem_lowFree, get_set hlt, Bool.or_eq_false_iff,
        decide_eq_false_iff_not]
      constructor
      · rintro ⟨h₁, h₂, h₃⟩
        exact ⟨h₃, h₁, h₂⟩
      · rintro ⟨h₃, h₁, h₂⟩
        exact ⟨h₁, h₂, h₃⟩
    have hmem : bsFirstClr bs ∈ lowFree bs := mem_lowFree.mpr ⟨by omega, hclr₁⟩
    obtain ⟨n, hn⟩ := ih (bsSet bs (bsFirstClr bs)) (by rwa [sz_set])
      ⟨idx, h20, by rwa [bsGetSize_set], by rw [get_set hlt, hclr]; simp; omega⟩
      (by rw [hlow, Finset.card_erase_of_mem hmem]; omega)
    refine ⟨n + 1, fun hnodup => hn ?_⟩
    simp only [getFrames] at hnodup
    rw [hrun] at hnodup
    exact hnodup.sublist ((List.sublist_cons_self ..).filter _)

end

/-- Of two memory sizes whose sum has 32 bits, `pmm_init` makes a bitset on which no address wraps
around exactly when there are less than `2 ^ 20` frames. -/
theorem noWrap_iff {m : Mem} {mb : Multiboot} {bits : Vector (BitVec 32) (bsWords mb.frameCnt)}
    {bs : BitSet} (hsum : mb.memLower + mb.memUpper < 4294967296)
    (h : pmmInit m mb bits = .ok bs) : NoWrap bs ↔ mb.frameCnt < 1048576 := by
  have hn : mb.frameCnt < 1073741824 := by
    rw [Multiboot.frameCnt, u32_eq (by omega)]
    omega
  have hsz := pmmInit_sz h
  have hcap := lt_bsWords (n := mb.frameCnt) (by omega)
  have hsize : bsGetSize bs = bsWords mb.frameCnt * 32 := by
    rw [bsGetSize, hsz, u32_eq (bsWords_lt _)]
  constructor
  · intro hw
    by_contra hlt
    have := hw.inverse 1048576 (by omega)
    revert this
    decide
  · intro hlt
    refine ⟨fun idx hidx => ?_, fun n => successes_nodup (by omega)⟩
    rw [pgSz_eq, u32_eq (by omega), Nat.mul_div_cancel _ (by decide)]

/-- The machine of one frame. -/
theorem noWrap_iff_one : NoWrap ⟨bsWords 1, clearBits _⟩ ↔ oneFrame.frameCnt < 1048576 :=
  noWrap_iff (by decide) pmmInit_oneFrame

/-- A machine with 4 GiB. -/
def fourGiB : Multiboot := ⟨0, 4194304, 0, 0⟩

/-- The bit after the last one below 4 GiB is clear, and is returned again and again. -/
theorem repeats_fourGiB : fourGiB.memLower + fourGiB.memUpper < 4294967296 ∧
    ∃ bs, pmmInit (fun _ => 0) fourGiB (clearBits _) = .ok bs ∧
      ∃ n, ¬ (successes (getFrames n bs).1).Nodup := by
  refine ⟨by decide, ⟨_, clearBits _⟩, mmapLoop_nil (n := 4294967295) rfl, ?_⟩
  refine repeats_high _ (bsWords_lt _) ⟨1048576, le_refl _, ?_, get_clearBits _ _⟩
  decide

end ToeS.Boot
