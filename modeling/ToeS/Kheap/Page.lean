import ToeS.Kheap.Aligned

/-!
# `kheap_alloc_a` at every offset

Whether `kheap_alloc_a` (`kern/mm/kheap.c`) works when the last block of the heap is free and has
room for a page more than asked for. It does exactly when the block's header is at least 28 bytes
below the next page boundary (`alignedPage_iff`): the chunk in front of the aligned block is then
large enough for its own header and footer. Closer to the boundary the size of that chunk wraps
around. Its footer lands on the chunk's own size field, which sends the pointer off the page grid or
out of the heap, or on the footer of the block before, which is never repaired.

Nothing else goes wrong: on the heaps that occur `kheap_alloc_a` is safe exactly with room for the
three blocks in a free last block (`kheapAllocA_safe_iff`).
-/

namespace ToeS.Kheap
open Lib

/-- `kheap_alloc_a` returns a page-aligned pointer to `size` zeroed bytes of the heap, and what is
behind the blocks `pre` is replaced by a free chunk, where there is one, the live block at the pointer
and a free last block. -/
def PageOk (h : Heap) (pre : List Blk) (size : Nat) : Prop :=
  ∃ p h' lead d r L', kheapAllocA h size = .ok (p, h') ∧ p % pgSz = 0 ∧
    kheapStart ≤ p ∧ p + size ≤ kheapEnd ∧ (∀ x, Bytes p (p + size) x → h'.mem x = 0) ∧
    Rep h' (pre ++ (lead ++ [d, r])) L' ∧ d.live = true ∧ p = d.addr + offset ∧
    size ≤ d.size + 8 ∧ r.live = false ∧ getWilderness h' = r.addr ∧
    (lead = [] ∨ ∃ c, lead = [c] ∧ c.live = false)

section
variable {h : Heap} {pre : List Blk} {w : Blk} {L : Fin binCnt → List Nat} {size : Nat}

/-- The last block is the one the last footer names. -/
lemma Rep.wilderness_eq (R : Rep h (pre ++ [w]) L) : getWilderness h = w.addr := by
  obtain ⟨pre', b, hb, -, hw⟩ := R.wilderness
  have : w = b := by
    have := congrArg List.getLast? hb
    simpa using this
  rw [hw, this]

/-- Far enough from the boundary. -/
lemma pageOk_of_far (R : Rep h (pre ++ [w]) L) (hroom : size + pgSz + 2 * blckOverhead ≤ w.size)
    (hx : 28 ≤ extraAt w.addr) : PageOk h pre size := by
  rw [pgSz_eq, blckOverhead_eq] at hroom
  have hle := extraAt_le w.addr
  have hroom' : extraAt w.addr + size + 12 ≤ w.size := by omega
  obtain ⟨hlo, hhi, hstop⟩ := extraAt_fits R
  obtain ⟨h', L', hrun, R', -, -, hz⟩ := kheapAllocA_spec R hx hroom' R.wilderness_eq
  have hlast : Rep h' ((pre ++ [chunk w, given w size]) ++ [rest w size]) L' := by
    rwa [List.append_assoc]
  have hpage : (w.addr + extraAt w.addr) % pgSz = 0 := by
    rw [pgSz_eq]
    unfold extraAt
    omega
  have hoff : w.addr + extraAt w.addr = (given w size).addr + offset := by
    show w.addr + extraAt w.addr = w.addr + extraAt w.addr - 8 + 8
    omega
  have hstop' : w.stop = w.addr + w.size + 20 := rfl
  refine ⟨_, h', [chunk w], given w size, rest w size, L', hrun, hpage, by omega, by omega,
    fun x hx => hz x ?_, R', rfl, hoff, Nat.le_add_right .., rfl, hlast.wilderness_eq,
    .inr ⟨_, rfl, rfl⟩⟩
  unfold Bytes at *
  omega

/-! ## Close to the boundary -/

/-- What the wrapped size and the footer leave in the size field of a chunk at `a`, when the footer
is `k` bytes above the header. -/
def mixed (a : Nat) : Nat → Nat
  | 1 => a / 16777216 % 256 + 4294967040
  | 2 => a / 65536 % 65536 + 4294901760
  | 3 => a / 256 % 16777216 + 4278190080
  | 4 => a
  | 5 => 245 + 256 * (a % 16777216)
  | 6 => 65526 + 65536 * (a % 65536)
  | _ => 16777207 + 16777216 * (a % 256)

/-- A header with a flag and a footer in its size field. -/
lemma smudged {m : Mem} {a k : Nat} (ha : a + 16 ≤ 4294967296) (hk : 1 ≤ k ∧ k ≤ 7)
    {s : Nat} (hs : s = 4294967280 + k) :
    readWord (writeByte (writeWord (writeWord m (a + 4) s) (a + k) a) a 1) (a + 4) =
      mixed a k := by
  rw [readWord_writeByte_ne (by omega) (by omega) (by omega)]
  simp only [readWord, writeWord_apply (show a + k + 4 ≤ 4294967296 by omega),
    writeWord_apply (show a + 4 + 4 ≤ 4294967296 by omega)]
  rw [u32_eq (n := a + 4) (by omega), u32_eq (n := a + 4 + 1) (by omega),
    u32_eq (n := a + 4 + 2) (by omega), u32_eq (n := a + 4 + 3) (by omega)]
  obtain ⟨h₁, h₂⟩ := hk
  subst hs
  interval_cases k <;> simp [mixed, add_assoc] <;> omega

/-- With such a size the block behind the chunk is below the chunk, or its payload is not in the heap. -/
lemma mixed_off {a k : Nat} (hlo : kheapStart ≤ a) (hhi : a + 20 ≤ kheapEnd) (hk : 1 ≤ k ∧ k ≤ 7)
    (hmod : a % 4096 + k = 4084) :
    u32 (a + mixed a k + 20) < a ∨ kheapEnd ≤ u32 (a + mixed a k + 20) + 8 ∧
      u32 (a + mixed a k + 20) + 8 < 4294967296 := by
  rw [kheapStart_eq] at hlo
  rw [kheapEnd_eq] at hhi ⊢
  have hwrap : 4294967296 ≤ a + mixed a k + 20 → mixed a k + 20 < 4294967296 →
      u32 (a + mixed a k + 20) < a := fun h₁ h₂ => by
    unfold u32
    omega
  have hkeep : a + mixed a k + 20 < 4294967288 → 3490709496 ≤ a + mixed a k + 20 →
      3490709504 ≤ u32 (a + mixed a k + 20) + 8 ∧ u32 (a + mixed a k + 20) + 8 < 4294967296 :=
    fun h₁ h₂ => by
      rw [u32_eq (by omega)]
      omega
  obtain ⟨hk₁, hk₂⟩ := hk
  interval_cases k <;> simp only [mixed] at hwrap hkeep ⊢
  · exact .inl (hwrap (by omega) (by omega))
  · exact .inl (hwrap (by omega) (by omega))
  · exact .inl (hwrap (by omega) (by omega))
  · exact .inl (hwrap (by omega) (by omega))
  · exact .inr (hkeep (by omega) (by omega))
  · rcases Nat.lt_or_ge (a + (65526 + 65536 * (a % 65536)) + 20) 4294967296 with h | h
    · exact .inr (hkeep (by omega) (by omega))
    · exact .inl (hwrap h (by omega))
  · exact .inl (hwrap (by omega) (by omega))

/-- Sizes from 1024 on belong in the last bin. -/
lemma getBinIndex_large {sz : Nat} (h₁ : 1024 ≤ sz) (h₂ : sz < 4294967296) :
    getBinIndex sz = ⟨8, by decide⟩ := by
  have hle := getBinIndex_mono h₁ h₂
  have h8 : getBinIndex 1024 = ⟨8, by decide⟩ := by decide
  rw [h8, Fin.le_def] at hle
  have hlt := (getBinIndex sz).isLt
  simp only [binCnt_eq] at hlt
  exact Fin.ext (by simp only at hle ⊢; omega)

/-- And no others do. -/
lemma large_of_getBinIndex {sz : Nat} (h : getBinIndex sz = ⟨8, by decide⟩) : 1024 ≤ sz := by
  by_contra hlt
  have hle := getBinIndex_mono (show sz ≤ 1023 by omega) (by decide)
  have h7 : getBinIndex 1023 = ⟨7, by decide⟩ := by decide
  rw [h7, h, Fin.le_def] at hle
  simp at hle

/-- The heap in which the chunk is put into a bin, for a last block at `a` with `e` bytes to the
boundary: its size has wrapped around, and its footer lies close to its own header. -/
def closeChunk (h : Heap) (a e : Nat) : Heap :=
  ((h.setSize a (4294967268 + e)).setHeader (a + e - 12) a).setHole a 1

/-- The start of `kheap_alloc_a` close to the boundary. -/
lemma carveHead_close (hlo : kheapStart ≤ w.addr) (hhi : w.stop ≤ kheapEnd)
    (hx : extraAt w.addr < 28) :
    carveHead h w.addr =
      addBlockSorted (closeChunk h w.addr (extraAt w.addr))
        (getBinIndex ((closeChunk h w.addr (extraAt w.addr)).size w.addr)) w.addr := by
  have hle := extraAt_le w.addr
  rw [kheapStart_eq] at hlo
  have hmod : w.addr % 4096 = 4096 - extraAt w.addr := by unfold extraAt; omega
  have hextra : sub32 pgSz (w.addr &&& 0x00000FFF) = extraAt w.addr := by
    have : w.addr &&& 4095 = w.addr % 4096 := Nat.and_two_pow_sub_one_eq_mod w.addr 12
    rw [pgSz_eq, this, sub32_eq (by omega) (by omega)]
    rfl
  have hsz : sub32 (sub32 (extraAt w.addr) blckOverhead) 8 = 4294967268 + extraAt w.addr := by
    rw [blckOverhead_eq]
    unfold sub32
    omega
  have hfoot : getFoot (h.setSize w.addr (4294967268 + extraAt w.addr)) w.addr =
      w.addr + extraAt w.addr - 12 := by
    rw [kheapEnd_eq] at hhi
    unfold Blk.stop at hhi
    rw [getFoot, size_setSize (by omega) (by omega)]
    unfold u32 blockSz
    omega
  simp only [carveHead, hextra, hsz, createFoot, hfoot]
  rfl

section
variable {a e : Nat}

/-- Footer and hole byte are written behind the size. -/
lemma closeChunk_behind (ha : 12 ≤ a) (ha' : a + 20 ≤ 4294967296) (he : 0 < e ∧ e < 28) :
    Edit (fun x => Bytes a (a + 1) x ∨ Bytes (a + e - 12) (a + e - 8) x)
      (h.setSize a (4294967268 + e)) (closeChunk h a e) := by
  have e₁ : Edit (Bytes (a + e - 12) (a + e - 12 + 4)) (h.setSize a (4294967268 + e))
      ((h.setSize a (4294967268 + e)).setHeader (a + e - 12) a) := .setHeader (by omega)
  have e₂ : Edit (Bytes a (a + 1)) ((h.setSize a (4294967268 + e)).setHeader (a + e - 12) a)
      (closeChunk h a e) := .setHole (by omega)
  refine (e₁.mono fun x hx => .inr ?_).trans (e₂.mono fun _ => .inl)
  unfold Bytes at *
  omega

/-- What closing a chunk writes that is too short for a block. -/
lemma closeChunk_edit (ha : 12 ≤ a) (ha' : a + 20 ≤ 4294967296) (he : 0 < e ∧ e < 28) :
    Edit (fun x => Bytes a (a + 8) x ∨ Bytes (a + e - 12) (a + e - 8) x) h (closeChunk h a e) := by
  have e₁ : Edit (Bytes (a + 4) (a + 8)) h (h.setSize a (4294967268 + e)) := .setSize (by omega)
  refine (e₁.mono fun x hx => .inl ?_).trans
    ((closeChunk_behind ha ha' he).mono fun x hx => hx.imp_left ?_)
  all_goals unfold Bytes at *; omega

/-- Away from the size field the wrapped size stays. -/
lemma closeChunk_size (ha : 12 ≤ a) (ha' : a + 20 ≤ 4294967296) (he : 0 < e ∧ e < 28)
    (hoff : e < 13 ∨ 19 < e) : (closeChunk h a e).size a = 4294967268 + e := by
  rw [(closeChunk_behind ha ha' he).size (by omega) (by unfold Bytes; omega),
    size_setSize (by omega) (by omega)]

/-- On the size field it is mixed with the address of the chunk. -/
lemma closeChunk_smudged (ha' : a + 20 ≤ 4294967296) {k : Nat} (hk : 1 ≤ k ∧ k ≤ 7)
    (he : e = k + 12) : (closeChunk h a e).size a = mixed a k := by
  rw [← smudged (m := h.mem) (s := 4294967268 + e) (by omega) hk (by omega)]
  have hfoot : a + e - 12 = a + k := by omega
  unfold closeChunk
  rw [hfoot]
  rfl

/-- Wherever the footer lands, the size is one for the last bin. -/
lemma closeChunk_large (ha : kheapStart ≤ a) (ha' : a + 20 ≤ 4294967296) (he : 0 < e ∧ e < 28)
    (hmod : a % 4096 + e = 4096) :
    1024 ≤ (closeChunk h a e).size a := by
  rw [kheapStart_eq] at ha
  by_cases hoff : e < 13 ∨ 19 < e
  · rw [closeChunk_size (by omega) ha' he hoff]
    omega
  · obtain ⟨k, hk, rfl⟩ : ∃ k, (1 ≤ k ∧ k ≤ 7) ∧ e = k + 12 := ⟨e - 12, by omega, by omega⟩
    rw [closeChunk_smudged ha' hk rfl]
    obtain ⟨hk₁, hk₂⟩ := hk
    interval_cases k <;> simp only [mixed] <;> omega

end

/-- Close to the boundary the chunk still gets into the last bin, whose blocks are too large for the
misplaced footer to reach their links. -/
lemma carve_close (R : Rep h (pre ++ [w]) L) (hx : extraAt w.addr < 28) :
    ∃ h₁ L₁ h₂, removeBlock (h.setHole w.addr 1)
        (getBinIndex ((h.setHole w.addr 1).size w.addr)) w.addr = .ok h₁ ∧
      carveHead h₁ w.addr = .ok h₂ ∧ Bins h₁ L₁ ∧ (∀ k a, a ∈ L₁ k ↔ FreeAt pre k a) ∧
      addBlockSorted (closeChunk h₁ w.addr (extraAt w.addr)) ⟨8, by decide⟩ w.addr = .ok h₂ ∧
      h₂.size w.addr = (closeChunk h₁ w.addr (extraAt w.addr)).size w.addr := by
  have hle := extraAt_le w.addr
  obtain ⟨hlo, -, hstop⟩ := extraAt_fits R
  have hhi := hstop.le
  have hmod : w.addr % 4096 + extraAt w.addr = 4096 := by unfold extraAt; omega
  have hend : w.addr + 20 ≤ 3490709504 := by
    rw [kheapEnd_eq] at hhi
    unfold Blk.stop at hhi
    omega
  obtain ⟨h₁, L₁, hrun₁, hB₁, hmem₁, -, -⟩ := wild_out R
  have hlo' := hlo
  rw [kheapStart_eq] at hlo'
  -- the blocks of the last bin end well before the chunk
  have hfar : ∀ a ∈ L₁ ⟨8, by decide⟩, a + 1044 ≤ w.addr := by
    intro a ha
    obtain ⟨c, hc, rfl, -, hi⟩ := (hmem₁ _ a).mp ha
    have := large_of_getBinIndex hi
    have := (R.tiles.around Blk.addr_lt_stop).1 c hc
    unfold Blk.stop at this
    omega
  have e₂ := closeChunk_edit (h := h₁) (a := w.addr) (by omega) (by omega) ⟨hle.1, hx⟩
  have hbin : IsBin (closeChunk h₁ w.addr (extraAt w.addr)) ⟨8, by decide⟩ (L₁ ⟨8, by decide⟩) := by
    refine (hB₁.bin _).edit e₂ rfl (hB₁.fits _) fun b hb x hx => ?_
    have := hfar b hb
    unfold Bytes at *
    omega
  have hspread : Spread (w.addr :: L₁ ⟨8, by decide⟩) := by
    refine ⟨fun a ha => ?_, fun a ha c hc => ?_⟩
    · rcases List.mem_cons.mp ha with rfl | ha
      · omega
      · exact hB₁.fits _ a ha
    · rcases List.mem_cons.mp ha with rfl | ha' <;> rcases List.mem_cons.mp hc with rfl | hc'
      · exact .inl rfl
      · have := hfar c hc'
        unfold Apart
        omega
      · have := hfar a ha'
        unfold Apart
        omega
      · exact hB₁.apart _ _ a ha' c hc'
  have hnot : w.addr ∉ L₁ ⟨8, by decide⟩ := fun hm => by
    have := hfar _ hm
    omega
  have hlarge := closeChunk_large (h := h₁) hlo (by omega) ⟨hle.1, hx⟩ hmod
  obtain ⟨h₂, -, -, hrun₂, -, -, -, -, -, e₃⟩ := addBlockSorted_spec hbin hspread hnot (by omega)
  refine ⟨h₁, L₁, h₂, hrun₁, ?_, hB₁, hmem₁, hrun₂, e₃.size (by omega) ?_⟩
  · rw [carveHead_close hlo hhi hx, getBinIndex_large hlarge (readWord_lt _ _)]
    exact hrun₂
  · rintro x hx ⟨c, hc, hx'⟩
    rcases List.mem_cons.mp hc with rfl | hc
    · unfold Bytes at *
      omega
    · have := hfar c hc
      unfold Bytes at *
      omega

/-- The steps of `kheap_alloc_a` close to the boundary. -/
lemma kheapAllocA_close {p : Nat} {h' : Heap} (R : Rep h (pre ++ [w]) L)
    (hx : extraAt w.addr < 28) (hrun : kheapAllocA h size = .ok (p, h')) :
    ∃ h₁ L₁ h₂ h₃ ret, Bins h₁ L₁ ∧ (∀ k a, a ∈ L₁ k ↔ FreeAt pre k a) ∧
      addBlockSorted (closeChunk h₁ w.addr (extraAt w.addr)) ⟨8, by decide⟩ w.addr = .ok h₂ ∧
      ret = u32 (w.addr + (closeChunk h₁ w.addr (extraAt w.addr)).size w.addr + blckOverhead) ∧
      carveTail h₂ w.addr ret w.size size = .ok h₃ ∧ p = u32 (ret + offset) ∧
      h' = { h₃ with mem := memset h₃.mem (ret + offset) 0 (u32 (h₃.size ret + 8)) } := by
  obtain ⟨hlo, -, hstop⟩ := extraAt_fits R
  obtain ⟨h₁, L₁, h₂, hrun₁, hrun₂, hB₁, hmem₁, hadd, hsize⟩ := carve_close R hx
  have hb : onBoundary w.addr = false := not_onBoundary hlo (by
    have := w.addr_lt_stop
    omega)
  simp only [kheapAllocA, R.wilderness_eq, hrun₁, hb, Bool.false_eq_true, not_false_eq_true,
    if_true] at hrun
  obtain ⟨h₀, h0, hrun⟩ := bind_ok.mp hrun
  cases h0
  obtain ⟨⟨h₃, ret⟩, hoff, hrun⟩ := bind_ok.mp hrun
  obtain ⟨h₂', hrun₂', hoff⟩ := bind_ok.mp hoff
  obtain rfl : h₂ = h₂' := Except.ok.inj (hrun₂.symm.trans hrun₂')
  obtain ⟨h₃', hrun₃, hoff⟩ := bind_ok.mp hoff
  cases hoff
  cases hrun
  refine ⟨h₁, L₁, h₂, h₃, _, hB₁, hmem₁, hadd, by rw [hsize], ?_, rfl, rfl⟩
  rw [← (R.inMem w (by simp)).size]
  exact hrun₃

/-- With the aligned block at the place of the chunk, the new last block does not get the size that
takes it to the end of the heap: the block given back is subtracted twice, once as the chunk. Where
the new footer lands on that size, it makes it too large. -/
lemma rest_missized {g : Heap} {a n q z : Nat} (hlo : kheapStart ≤ a) (hhi : a + n + 20 = kheapEnd)
    (hroom : size + 20 ≤ n) (hmod : a % 4096 = 4088) (hq : q = a + size + 20)
    (hz : z = sub32 (sub32 (sub32 n size) size) 40) :
    (((g.setSize q z).setHole q 1).setHeader (a + n - size - 4) q).size q + size + 20 ≠ n := by
  rw [kheapStart_eq] at hlo
  rw [kheapEnd_eq] at hhi
  have hzlt : z < 4294967296 := hz ▸ sub32_lt _ _
  have e₁ : Edit (Bytes q (q + 1)) (g.setSize q z) ((g.setSize q z).setHole q 1) :=
    .setHole (by omega)
  have s₁ : ((g.setSize q z).setHole q 1).size q = z := by
    rw [e₁.size (by omega) (by unfold Bytes; omega), size_setSize (by omega) hzlt]
  obtain ⟨g₁, hg₁⟩ : ∃ g₁, g₁ = (g.setSize q z).setHole q 1 := ⟨_, rfl⟩
  rw [← hg₁] at s₁ ⊢
  have e₂ : Edit (Bytes (a + n - size - 4) (a + n - size - 4 + 4)) g₁
      (g₁.setHeader (a + n - size - 4) q) := .setHeader (by omega)
  by_cases hoff : a + n - size ≤ q + 4 ∨ q + 8 ≤ a + n - size - 4
  · rw [e₂.size (by omega) (by unfold Bytes; omega), s₁, hz]
    unfold sub32
    omega
  · -- the last byte of the size is one of the wrapped size, or of the address in the footer
    have htop := readWord_top (m := (g₁.setHeader (a + n - size - 4) q).mem) (a := q + 4) (by omega)
    have hbyte : (g₁.setHeader (a + n - size - 4) q).mem (q + 4 + 3) =
        writeWord g₁.mem (a + n - size - 4) q (q + 4 + 3) := rfl
    rw [hbyte, writeWord_apply (by omega)] at htop
    have hold := readWord_top (m := g₁.mem) (a := q + 4) (by omega)
    have s₁' : readWord g₁.mem (q + 4) = z := s₁
    have hlarge : 0 < readWord (g₁.setHeader (a + n - size - 4) q).mem (q + 4) / 16777216 := by
      rw [← htop]
      split_ifs
      case neg =>
        rw [hold, s₁', hz]
        unfold sub32
        omega
      all_goals
        simp only [UInt8.toNat_ofNat']
        omega
    have hsize : (g₁.setHeader (a + n - size - 4) q).size q =
        readWord (g₁.setHeader (a + n - size - 4) q).mem (q + 4) := rfl
    rw [hsize]
    omega

/-- The block given back gets its size, its footer and its hole byte. -/
lemma given_edit (g : Heap) (a size : Nat) (ha : a + size + 20 ≤ 4294967296) :
    ((createFoot (g.setSize a size) a).setHole a 0).size a = size ∧
      Edit (fun x => Bytes a (a + 8) x ∨ a + 16 ≤ x) g
        ((createFoot (g.setSize a size) a).setHole a 0) := by
  have e₁ : Edit (Bytes (a + 4) (a + 8)) g (g.setSize a size) := .setSize (by omega)
  obtain ⟨m, e₂⟩ := createFoot_spec (h := g.setSize a size) (b := ⟨a, size, true⟩)
    (size_setSize (by omega) (by omega)) ha
  have e₃ : Edit (Bytes a (a + 1)) (createFoot (g.setSize a size) a)
      ((createFoot (g.setSize a size) a).setHole a 0) := .setHole (by omega)
  constructor
  · rw [e₃.size (by omega) (by unfold Bytes; omega)]
    exact m.size
  · refine ((e₁.mono fun x hx => .inl ?_).trans (e₂.mono fun x hx => .inr ?_)).trans
      (e₃.mono fun x hx => .inl ?_)
    · unfold Bytes at *
      omega
    · unfold Bytes at *
      omega
    · have hlow : a + 16 + size ≤ x := hx.1
      omega

/-- The new last block behind it gets the same. Its size may have wrapped around; its footer is above
the block that was given back all the same. -/
lemma last_edit {g : Heap} {a n q z : Nat} (hlo : kheapStart ≤ a) (hhi : a + n + 20 = kheapEnd)
    (hroom : size + 20 ≤ n) (hq : q = a + size + 20) (hz : z = sub32 (sub32 (sub32 n size) size) 40) :
    createFoot ((g.setSize q z).setHole q 1) q =
        ((g.setSize q z).setHole q 1).setHeader (a + n - size - 4) q ∧
      Edit (fun x => a + 16 ≤ x) g (createFoot ((g.setSize q z).setHole q 1) q) := by
  rw [kheapStart_eq] at hlo
  rw [kheapEnd_eq] at hhi
  have hzlt : z < 4294967296 := hz ▸ sub32_lt _ _
  have e₁ : Edit (Bytes (q + 4) (q + 8)) g (g.setSize q z) := .setSize (by omega)
  have e₂ : Edit (Bytes q (q + 1)) (g.setSize q z) ((g.setSize q z).setHole q 1) :=
    .setHole (by omega)
  have hfoot : getFoot ((g.setSize q z).setHole q 1) q = a + n - size - 4 := by
    rw [getFoot, e₂.size (by omega) (by unfold Bytes; omega), size_setSize (by omega) hzlt, hz, hq]
    unfold u32 sub32 blockSz
    omega
  have hfoot' : createFoot ((g.setSize q z).setHole q 1) q =
      ((g.setSize q z).setHole q 1).setHeader (a + n - size - 4) q := by rw [createFoot, hfoot]
  have e₃ : Edit (Bytes (a + n - size - 4) (a + n - size - 4 + 4)) ((g.setSize q z).setHole q 1)
      (createFoot ((g.setSize q z).setHole q 1) q) := by
    rw [hfoot']
    exact .setHeader (by omega)
  refine ⟨hfoot', ((e₁.mono fun x hx => ?_).trans (e₂.mono fun x hx => ?_)).trans
    (e₃.mono fun x hx => ?_)⟩
  all_goals unfold Bytes at *; omega

/-- With the aligned block at the place of the chunk itself, the end of `kheap_alloc_a` writes nothing
below it, and what it makes of the new last block does not reach the end of the heap. -/
lemma carveTail_above {h₂ h₃ : Heap} {L₂ : Fin binCnt → List Nat} {a n : Nat} (hB : Bins h₂ L₂)
    (hlo : kheapStart ≤ a) (hhi : a + n + 20 = kheapEnd) (hroom : size + 20 ≤ n)
    (hmod : a % 4096 = 4088) (hoff : ∀ k, ∀ c ∈ L₂ k, c = a ∨ c + 20 ≤ a)
    (hrun : carveTail h₂ a a n size = .ok h₃) :
    h₃.size a = size ∧ h₃.header (a - 4) = h₂.header (a - 4) ∧
      h₃.size (a + size + 20) + size + 20 ≠ n := by
  have hlo₀ := hlo
  have hhi₀ := hhi
  rw [kheapStart_eq] at hlo
  rw [kheapEnd_eq] at hhi
  obtain ⟨g₁, hg₁⟩ : ∃ g, g = (createFoot (h₂.setSize a size) a).setHole a 0 := ⟨_, rfl⟩
  obtain ⟨s₁, e₁⟩ := given_edit h₂ a size (by omega)
  rw [← hg₁] at s₁ e₁
  obtain ⟨q, hq⟩ : ∃ q, q = a + size + 20 := ⟨_, rfl⟩
  have hqa : u32 (a + size + blckOverhead) = q := by
    rw [blckOverhead_eq, u32_eq (by omega), hq]
  obtain ⟨z, hz⟩ : ∃ z, z = sub32 (sub32 (sub32 n (g₁.size a)) (g₁.size a)) (2 * blckOverhead) :=
    ⟨_, rfl⟩
  have hz' : z = sub32 (sub32 (sub32 n size) size) 40 := by rw [hz, s₁, blckOverhead_eq]
  obtain ⟨g₂, hg₂⟩ : ∃ g, g = createFoot ((g₁.setSize q z).setHole q 1) q := ⟨_, rfl⟩
  obtain ⟨hfoot, e₂⟩ := last_edit (g := g₁) hlo₀ hhi₀ hroom hq hz'
  rw [← hg₂] at hfoot e₂
  have hB₂ : Bins g₂ L₂ := by
    refine hB.edit ((e₁.mono fun _ h => h).trans (e₂.mono fun x hx => .inr (by omega)))
      (by rw [hg₂, hg₁]; rfl) ?_
    rintro x ⟨k, c, hc, hx⟩ hw
    have := hoff k c hc
    unfold Bytes at *
    omega
  obtain ⟨g₃, L₃, hadd, -, -, -, e₃, -⟩ := hB₂.add (i := getBinIndex (g₂.size q)) (b := q) (by omega)
    (fun k c hc => by have := hoff k c hc; unfold Apart; omega)
    (fun k hc => by have := hoff k q hc; omega) (by omega)
  obtain rfl : g₃ = h₃ := by
    have hc : carveTail h₂ a a n size = addBlockSorted g₂ (getBinIndex (g₂.size q)) q := by
      rw [carveTail]
      simp only [← hg₁, hqa, ← hz, ← hg₂]
    exact Except.ok.inj (hadd.symm.trans (hc.symm.trans hrun))
  have s₂ : g₂.size q + size + 20 ≠ n := by
    rw [hfoot]
    exact rest_missized hlo₀ hhi₀ hroom hmod hq hz'
  have hlink : ∀ x, x < a + 8 → ¬ (Bytes (q + 8) (q + 16) x ∨ Links L₂ x) ∨ x + 4 < a := by
    intro x hx
    by_cases hxa : x + 4 < a
    · exact .inr hxa
    · refine .inl ?_
      rintro (hw | ⟨k, c, hc, hw⟩)
      · unfold Bytes at hw
        omega
      · have := hoff k c hc
        unfold Bytes at hw
        omega
  refine ⟨?_, ?_, ?_⟩
  · rw [e₃.size (by omega), e₂.size (by omega) (by unfold Bytes; omega), s₁]
    intro x hx
    refine (hlink x ?_).resolve_right ?_
    all_goals unfold Bytes at hx; omega
  · rw [e₃.header (by omega), e₂.header (by omega) (by unfold Bytes; omega),
      e₁.header (by omega) (by unfold Bytes; omega)]
    intro x hx
    refine (hlink x ?_).resolve_right ?_
    all_goals unfold Bytes at hx; omega
  · rw [← hq, e₃.size (by omega)]
    · exact s₂
    · rintro x hx (hw | ⟨k, c, hc, hw⟩)
      · unfold Bytes at *
        omega
      · have := hoff k c hc
        unfold Bytes at *
        omega

/-- Eight bytes in front of the boundary the aligned block takes the place of the chunk. The footer of
the block before is lost: it names the chunk, and nothing puts it back. -/
lemma kheapAllocA_eight {p : Nat} {h' : Heap} (R : Rep h (pre ++ [w]) L) (hx : extraAt w.addr = 8)
    (hroom : size + 20 ≤ w.size) (hrun : kheapAllocA h size = .ok (p, h')) :
    h'.header (w.addr - 4) = w.addr ∧ h'.size (w.addr + size + 20) + size + 20 ≠ w.size := by
  obtain ⟨h₁, L₁, h₂, h₃, ret, hB₁, hmem₁, hadd, hret, hrun₃, -, rfl⟩ :=
    kheapAllocA_close R (by omega) hrun
  obtain ⟨hlo, -, hstop⟩ := extraAt_fits R
  have hws : w.addr + w.size + 20 = 3490709504 := hstop
  have hlo' := hlo
  rw [kheapStart_eq] at hlo'
  rw [hx] at hadd hret
  have hpre : ∀ k, ∀ x ∈ L₁ k, x + 20 ≤ w.addr := by
    intro k x hx'
    obtain ⟨c, hc, rfl, -⟩ := (hmem₁ k x).mp hx'
    have := (R.tiles.around Blk.addr_lt_stop).1 c hc
    unfold Blk.stop at this
    omega
  have e₁ := closeChunk_edit (h := h₁) (a := w.addr) (by omega) (by omega)
    (show 0 < 8 ∧ 8 < 28 by decide)
  -- the footer of the chunk lies right in front of it
  have f₁ : (closeChunk h₁ w.addr 8).header (w.addr - 4) = w.addr := by
    have e : Edit (Bytes w.addr (w.addr + 1))
        ((h₁.setSize w.addr (4294967268 + 8)).setHeader (w.addr + 8 - 12) w.addr)
        (closeChunk h₁ w.addr 8) := .setHole (by omega)
    have hfoot : w.addr + 8 - 12 = w.addr - 4 := by omega
    rw [e.header (by omega) (by unfold Bytes; omega), hfoot, header_setHeader (by omega) (by omega)]
  have hB : Bins (closeChunk h₁ w.addr 8) L₁ := by
    refine hB₁.edit e₁ rfl ?_
    rintro x ⟨k, c, hc, hx'⟩ hw
    have := hpre k c hc
    unfold Bytes at *
    omega
  obtain ⟨h₂', L₂, hadd', hB₂, hmem₂, -, e₂, -⟩ := hB.add (i := ⟨8, by decide⟩) (b := w.addr)
    (by omega) (fun k c hc => by have := hpre k c hc; unfold Apart; omega)
    (fun k hc => by have := hpre k w.addr hc; omega) (by omega)
  obtain rfl : h₂' = h₂ := Except.ok.inj (hadd'.symm.trans hadd)
  have f₂ : h₂'.header (w.addr - 4) = w.addr := by
    rw [e₂.header (by omega), f₁]
    rintro x hx' (hw | ⟨k, c, hc, hw⟩)
    · unfold Bytes at *
      omega
    · have := hpre k c hc
      unfold Bytes at *
      omega
  have hret' : ret = w.addr := by
    rw [hret, closeChunk_size (by omega) (by omega) (by decide) (by decide), blckOverhead_eq]
    unfold u32
    omega
  rw [hret'] at hrun₃ ⊢
  have hmod : w.addr % 4096 = 4088 := by
    unfold extraAt at hx
    omega
  obtain ⟨s₃, f₃, n₃⟩ := carveTail_above hB₂ hlo (by rw [kheapEnd_eq]; exact hws) hroom hmod
    (fun k c hc => by
      rcases (hmem₂ k c).mp hc with hc | ⟨rfl, -⟩
      · exact .inr (hpre k c hc)
      · exact .inl rfl) hrun₃
  rw [s₃, u32_eq (by omega)]
  have e₄ : SameOff (Bytes (w.addr + offset) (w.addr + offset + (size + 8))) h₃.mem
      (memset h₃.mem (w.addr + offset) 0 (size + 8)) := .memset (by unfold offset; omega)
  constructor
  · refine Eq.trans ?_ (f₃.trans f₂)
    exact e₄.readWord (by omega) (by unfold Bytes offset; omega)
  · have hsize : ({ h₃ with mem := memset h₃.mem (w.addr + offset) 0 (size + 8) } : Heap).size
        (w.addr + size + 20) = h₃.size (w.addr + size + 20) :=
      e₄.readWord (by omega) (by unfold Bytes offset; omega)
    rwa [hsize]

/-- Close to the boundary `kheap_alloc_a` goes wrong. -/
lemma not_pageOk_of_close (R : Rep h (pre ++ [w]) L) (hroom : size + 4136 ≤ w.size)
    (hx : extraAt w.addr < 28) : ¬ PageOk h pre size := by
  rintro ⟨p, h', lead, d, r, L', hrun, hpage, -, -, -, R', -, hp, -, -, -, hlead⟩
  obtain ⟨h₁, -, -, -, ret, -, -, -, hret, -, hp', -⟩ := kheapAllocA_close R hx hrun
  obtain ⟨hlo, -, hstop⟩ := extraAt_fits R
  have hle := extraAt_le w.addr
  have hmod : w.addr % 4096 + extraAt w.addr = 4096 := by unfold extraAt; omega
  have hws : w.addr + w.size + 20 = 3490709504 := hstop
  have hbd := R'.bounds (b := d) (by simp)
  have hds : d.stop = d.addr + d.size + 20 := rfl
  -- where the live block begins
  have hd : d.addr = w.addr ∧ lead = [] ∨ w.addr + 20 ≤ d.addr := by
    obtain ⟨c, hc, ht⟩ := tiles_append.mp R'.tiles
    obtain rfl : c = w.addr := hc.stop_unique (tiles_middle.mp R.tiles).1
    rcases hlead with rfl | ⟨l, rfl, -⟩
    · exact .inl ⟨ht.1, rfl⟩
    · obtain ⟨hl, hld, -⟩ : l.addr = w.addr ∧ d.addr = l.stop ∧ _ := ht
      have hls : l.stop = l.addr + l.size + 20 := rfl
      exact .inr (by omega)
  have hlo₀ := hlo
  rw [kheapStart_eq] at hlo
  rw [pgSz_eq] at hpage
  unfold offset at hp hp'
  rw [blckOverhead_eq] at hret
  by_cases hoff : extraAt w.addr < 13 ∨ 19 < extraAt w.addr
  · -- the pointer is at the boundary, so the live block takes the place of the chunk
    rw [closeChunk_size (by omega) (by omega) ⟨hle.1, hx⟩ hoff] at hret
    have hret' : ret = w.addr + extraAt w.addr - 8 := by
      unfold u32 at hret
      omega
    have hx8 : extraAt w.addr = 8 ∧ lead = [] := by
      unfold u32 at hp'
      rcases hd with ⟨hd, rfl⟩ | hd
      · exact ⟨by omega, rfl⟩
      · omega
    have hlost := (kheapAllocA_eight R hx8.1 (by omega) hrun).1
    -- there is a block before, because the heap starts on a boundary
    have hne : pre ≠ [] := by
      rintro rfl
      have : kheapStart = w.addr := (tiles_middle.mp R.tiles).1
      rw [kheapStart_eq] at this
      omega
    obtain ⟨pre, b, rfl⟩ : ∃ pre' b, pre = pre' ++ [b] :=
      ⟨_, _, (List.dropLast_append_getLast hne).symm⟩
    have hb := (R'.inMem b (by simp)).foot
    have hadj : w.addr = b.stop := by
      have R₂ : Rep h (pre ++ b :: w :: []) L := by simpa using R
      exact R₂.adjacent_prev
    have hfoot : b.foot = w.addr - 4 := by
      rw [hadj]
      unfold Blk.foot Blk.stop
      omega
    rw [hfoot, hlost] at hb
    have := b.addr_lt_stop
    omega
  · -- the pointer is off the page grid or out of the heap
    obtain ⟨k, hk, hke⟩ : ∃ k, (1 ≤ k ∧ k ≤ 7) ∧ extraAt w.addr = k + 12 :=
      ⟨extraAt w.addr - 12, by omega, by omega⟩
    rw [closeChunk_smudged (by omega) hk hke] at hret
    rcases mixed_off hlo₀ (by rw [kheapEnd_eq]; omega) hk (by omega) with h | h
    · rw [← hret] at h
      rw [u32_eq (by omega)] at hp'
      omega
    · rw [← hret, kheapEnd_eq] at h
      rw [u32_eq (by omega)] at hp'
      omega

/-- Where the last block has room for a page more than asked for, `kheap_alloc_a` works exactly when
there is room for header, links and footer of a chunk in front of the page boundary. -/
theorem alignedPage_iff (R : Rep h (pre ++ [w]) L)
    (hroom : size + pgSz + 2 * blckOverhead ≤ w.size) :
    PageOk h pre size ↔ w.addr % pgSz + blckOverhead + offset ≤ pgSz := by
  have hcond : w.addr % pgSz + blckOverhead + offset ≤ pgSz ↔ 28 ≤ extraAt w.addr := by
    rw [pgSz_eq, blckOverhead_eq]
    unfold offset extraAt
    omega
  rw [hcond]
  refine ⟨fun hok => ?_, pageOk_of_far R hroom⟩
  rw [pgSz_eq, blckOverhead_eq] at hroom
  by_contra hx
  exact not_pageOk_of_close R hroom (by omega) hok

/-- The initialised heap. -/
theorem alignedPage_iff_boot :
    ∃ h, kheapInit (kheapPreInit (fun _ => 0) fun _ => 0) = .ok h ∧
      (PageOk h [] 4096 ↔ wholeHeap.addr % pgSz + blckOverhead + offset ≤ pgSz) := by
  obtain ⟨h, hrun, R, -⟩ := kheapInit_spec fun _ => 0
  have R' : Rep h ([] ++ [wholeHeap]) _ := R
  exact ⟨h, hrun, alignedPage_iff R' (by decide)⟩

/-- After an allocation of 4068 bytes the last block, free and almost as large as the heap, is 8 bytes
in front of a page boundary. -/
theorem not_pageOk_alloc :
    ∃ s pre w L, runFrom (fun _ => 0) [.alloc 4068] = .ok s ∧ Rep s.heap (pre ++ [w]) L ∧
      w.live = false ∧ 4096 + pgSz + 2 * blckOverhead ≤ w.size ∧ ¬ PageOk s.heap pre 4096 := by
  obtain ⟨s₀, s₁, L, hboot, -, hrun, -, P, -⟩ := boot_alloc (fun _ => 0) 4068 (by decide)
  have R : Rep s₁.heap ([⟨kheapStart, 4068, true⟩] ++ [remainder wholeHeap 4068]) L := by
    have ha : allocate wholeHeap 4068 = [⟨kheapStart, 4068, true⟩] ++ [remainder wholeHeap 4068] :=
      if_pos (by decide)
    exact ha ▸ P.rep
  refine ⟨s₁, _, _, L, ?_, R, rfl, by decide, not_pageOk_of_close R (by decide) (by decide)⟩
  show (boot _ >>= fun s => exec step s _) = _
  rw [hboot]
  show exec step s₀ _ = _
  rw [exec_cons hrun]
  rfl

end

/-! ## On the heap -/

section
variable {s : Sys} {bs : List Blk} {L : Fin binCnt → List Nat} {m : Mem} {ops : List Op} {size : Nat}

/-- Close to the boundary `kheap_alloc_a` never does what it should, whatever the last block is. -/
lemma Pic.not_alignedOk_of_close (P : Pic s bs L) (hx : extraAt (getWilderness s.heap) < 28) :
    ¬ AlignedOk s size := by
  obtain ⟨pre, w, rfl, hstop, hwild⟩ := P.rep.wilderness
  rintro ⟨p, h', hrun, hp⟩
  rw [hwild] at hx
  obtain ⟨h₁, -, -, -, ret, -, -, -, hret, -, hp', -⟩ := kheapAllocA_close P.rep hx hrun
  obtain ⟨hlo, -, -⟩ := extraAt_fits P.rep
  have hle := extraAt_le w.addr
  have hmod : w.addr % 4096 + extraAt w.addr = 4096 := by unfold extraAt; omega
  have hws : w.addr + w.size + 20 = 3490709504 := hstop
  -- where the block given back begins, and what then is behind it
  have hat : p = 0 ∨ kheapStart ≤ p ∧ p + size + 8 ≤ kheapEnd ∧ (w.addr + 20 ≤ p - offset ∨
      p - offset = w.addr ∧ h'.size (w.addr + size + 20) + size + 20 = w.size) := by
    refine hp.imp And.left ?_
    rintro ⟨h₁, h₂, -, hcut⟩
    rw [P.rep.start] at h₁
    rw [P.rep.end_] at h₂
    refine ⟨h₁, h₂, ?_⟩
    rw [CutsLast, hwild, P.rep.end_, ← hstop, blckOverhead_eq] at hcut
    rcases hcut with ⟨-, hc, -⟩ | ⟨he, -, -, hc⟩
    · have hc : p - offset = w.addr + h'.size w.addr + 20 := hc
      exact .inl (by omega)
    · rw [he] at hc
      have hc : w.addr + size + 20 + h'.size (w.addr + size + 20) + 20 = w.addr + w.size + 20 := hc
      exact .inr ⟨he, by omega⟩
  have hlo₀ := hlo
  rw [kheapStart_eq] at hlo hat
  rw [kheapEnd_eq] at hat
  unfold offset at hp' hat
  rw [blckOverhead_eq] at hret
  by_cases hoff : extraAt w.addr < 13 ∨ 19 < extraAt w.addr
  · -- the pointer is at the boundary, so the block takes the place of the chunk
    rw [closeChunk_size (by omega) (by omega) ⟨hle.1, hx⟩ hoff] at hret
    have hret' : ret = w.addr + extraAt w.addr - 8 := by
      unfold u32 at hret
      omega
    have hx8 : extraAt w.addr = 8 ∧ h'.size (w.addr + size + 20) + size + 20 = w.size := by
      unfold u32 at hp'
      rcases hat with hat | ⟨-, -, hat | hat⟩
      · omega
      · omega
      · exact ⟨by omega, hat.2⟩
    exact (kheapAllocA_eight P.rep hx8.1 (by omega) hrun).2 hx8.2
  · -- the pointer is below the last block or out of the heap
    obtain ⟨k, hk, hke⟩ : ∃ k, (1 ≤ k ∧ k ≤ 7) ∧ extraAt w.addr = k + 12 :=
      ⟨extraAt w.addr - 12, by omega, by omega⟩
    rw [closeChunk_smudged (by omega) hk hke] at hret
    rcases mixed_off hlo₀ (by rw [kheapEnd_eq]; omega) hk (by omega) with h | h
    · rw [← hret] at h
      rw [u32_eq (by omega)] at hp'
      omega
    · rw [← hret, kheapEnd_eq] at h
      rw [u32_eq (by omega)] at hp'
      omega

/-- `kheap_alloc_a` does what it should exactly with room for the three blocks. -/
lemma Pic.alignedOk_iff (P : Pic s bs L) : AlignedOk s size ↔ RoomForPage s size := by
  refine ⟨fun hok => ?_, P.alignedOk⟩
  rcases Nat.lt_or_ge (extraAt (getWilderness s.heap)) 28 with hx | hx
  · exact absurd hok (P.not_alignedOk_of_close hx)
  · exact P.roomForPage hx hok

/-- After every legal run from boot, `kheap_alloc_a` is safe exactly when the last block is free with
room for a chunk, the block and a new last block. -/
theorem kheapAllocA_safe_iff (hl : LegalFrom m ops) (hf : m kheapEnd = 0 ∨ EnclosedFrom m ops) :
    ∃ s, runFrom m ops = .ok s ∧ (AlignedOk s size ↔ RoomForPage s size) := by
  obtain ⟨s, hrun, ⟨bs, L, P, -⟩, -⟩ := runFrom_sound hl hf
  exact ⟨s, hrun, P.alignedOk_iff⟩

/-- After an allocation and its release. -/
theorem kheapAllocA_safe_iff_alloc_free :
    ∃ s, runFrom (fun _ => 0) [.alloc 100, .free (kheapStart + offset)] = .ok s ∧
      (AlignedOk s 4096 ↔ RoomForPage s 4096) :=
  kheapAllocA_safe_iff (legal_alloc_free _) (.inl rfl)

end

end ToeS.Kheap
