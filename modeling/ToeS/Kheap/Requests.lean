import ToeS.Kheap.Page

/-!
# Runs with aligned requests

`kmalloc.c` passes what it is asked for on to `kheap_alloc` and to `kheap_alloc_a`, in any order. As long as
each aligned request finds room for its three blocks, the heap stays in order and all payloads apart,
and what an aligned request gets is a page boundary with cleared memory. `Pic.allocA_rest` says what an
aligned request leaves for the next one, and `aligned_capacity` how many a fresh heap serves.
-/

namespace ToeS.Kheap
open Lib

/-- A call of `kmalloc.c` after `kheap_init`: `kmalloc_a`, or any other. -/
inductive Request where
  | plain (op : Op)
  | allocA (sz : Nat)

namespace Request

def step (s : Sys) : Request → Except Fault Sys
  | .plain op => Kheap.step s op
  | .allocA sz => do
    let (p, h) ← kheapAllocA s.heap sz
    return ⟨h, p :: s.live⟩

/-- An aligned request needs room in the last block. -/
def Legal (s : Sys) : Request → Prop
  | .plain op => Kheap.Legal s op
  | .allocA sz => RoomForPage s sz

/-- A release is of the first block, or of one that is not the last. -/
def Enclosed (s : Sys) : Request → Prop
  | .plain (.free p) => Kheap.Enclosed s.heap p
  | _ => True

end Request

/-- `p` is a new payload of `sz` bytes and the links, on a page boundary and cleared. -/
structure NewPage (s s' : Sys) (p sz : Nat) : Prop where
  live : s'.live = p :: s.live
  boundary : p % 4096 = 0
  size : payloadSz s'.heap p = sz + 8
  cleared : ∀ x, Bytes p (p + sz + 8) x → s'.heap.mem x = 0

section
variable {s s' : Sys} {bs pre : List Blk} {w : Blk} {L : Fin binCnt → List Nat} {sz : Nat}

/-- `kheap_alloc_a` as a step of the system. -/
lemma Pic.allocA (P : Pic s bs L) (hh : bs = [wholeHeap] ∨ Holes s.heap bs)
    (hr : RoomForPage s sz) :
    ∃ pre w s' L', bs = pre ++ [w] ∧ getWilderness s.heap = w.addr ∧ w.live = false ∧
      Request.step s (.allocA sz) = .ok s' ∧
      Pic s' (pre ++ [chunk w, given w sz, rest w sz]) L' ∧
      Holes s'.heap (pre ++ [chunk w, given w sz, rest w sz]) ∧
      NewPage s s' (w.addr + extraAt w.addr) sz ∧ Keeps s s' ∧
      s'.heap.mem kheapEnd = s.heap.mem kheapEnd := by
  obtain ⟨pre, w, rfl, hstop, hwild⟩ := P.rep.wilderness
  have hwm : w ∈ pre ++ [w] := by simp
  obtain ⟨hl, hx, hroom⟩ := hr
  rw [hwild] at hl hx hroom
  rw [(P.rep.inMem w hwm).size] at hroom
  rw [P.live_iff hwm, Bool.not_eq_true] at hl
  obtain ⟨h', L', hrun, R', e, hh', hzero⟩ := kheapAllocA_spec P.rep hx hroom hwild
  have hgiven : (given w sz).addr + offset = w.addr + extraAt w.addr := by
    show w.addr + extraAt w.addr - 8 + 8 = _
    omega
  have hchunk : (chunk w).live = false := rfl
  have hrest : (rest w sz).live = false := rfl
  have hlive : (given w sz).live = true := rfl
  have hmem : ∀ c : Blk, c.live = true →
      (c ∈ pre ++ [chunk w, given w sz, rest w sz] ↔ c = given w sz ∨ c ∈ pre ++ [w]) := by
    intro c hc
    have h₁ : c ≠ chunk w := fun e => by rw [e, hchunk] at hc; cases hc
    have h₂ : c ≠ rest w sz := fun e => by rw [e, hrest] at hc; cases hc
    have h₃ : c ≠ w := fun e => by rw [e, hl] at hc; cases hc
    simp [h₁, h₂, h₃]
    tauto
  obtain ⟨s', hs'⟩ : ∃ s' : Sys, s' = ⟨h', (w.addr + extraAt w.addr) :: s.live⟩ := ⟨_, rfl⟩
  have hfresh : w.addr + extraAt w.addr ∉ s.live := by
    intro hq
    obtain ⟨b, hb, hbl, hbq⟩ := (P.live _).mp hq
    have hne : b ≠ w := fun e => by rw [e, hl] at hbl; cases hbl
    have := P.rep.around (b := w) (mem_of_middle hb hne)
    have := b.addr_lt_stop
    unfold Blk.stop offset at *
    omega
  have P' : Pic s' (pre ++ [chunk w, given w sz, rest w sz]) L' := by
    rw [hs']
    refine ⟨R', fun q => ?_, List.nodup_cons.mpr ⟨hfresh, P.nodup⟩⟩
    rw [List.mem_cons, P.live]
    constructor
    · rintro (rfl | ⟨c, hc, hcl, rfl⟩)
      · exact ⟨given w sz, (hmem _ hlive).mpr (.inl rfl), hlive, hgiven.symm⟩
      · exact ⟨c, (hmem c hcl).mpr (.inr hc), hcl, rfl⟩
    · rintro ⟨c, hc, hcl, rfl⟩
      rcases (hmem c hcl).mp hc with rfl | hc
      · exact .inl hgiven
      · exact .inr ⟨c, hc, hcl, rfl⟩
  have hfree : ∀ x, w.Inside x ∨ Links L x → FreeIn (pre ++ [w]) x := by
    rintro x (hx | hx)
    · exact ⟨w, hwm, hl, hx⟩
    · exact P.rep.links_freeIn hx
  refine ⟨pre, w, s', L', rfl, hwild, hl, ?_, P', ?_, ⟨by rw [hs'], ?_, ?_, ?_⟩, ?_, ?_⟩
  · rw [hs']
    show (kheapAllocA s.heap sz >>= fun x => pure (⟨x.2, x.1 :: s.live⟩ : Sys)) = _
    rw [hrun]
    rfl
  · intro b hb
    rcases List.mem_append.mp hb with hb | hb
    · have hbm : b ∈ pre ++ [w] := List.mem_append_left _ hb
      have hbound := P.rep.bounds hbm
      have hlt := b.addr_lt_stop
      have hold : s'.heap.hole b.addr = s.heap.hole b.addr := by
        rw [hs']
        refine e.hole (by omega) ?_
        rintro (hx | hx)
        · have := P.rep.around (b := w) (c := b) (List.mem_append_left _ hb)
          unfold Blk.Inside Bytes at hx
          omega
        · obtain ⟨c, hc, -, hx⟩ := P.rep.of_links hx
          have := P.rep.apart hbm hc
          unfold Blk.stop Bytes at *
          rcases this with rfl | h | h <;> omega
      rw [hold]
      -- where there is a block before the last one, the heap has been used
      refine (hh.resolve_left fun hw => ?_) b hbm
      have hlen := congrArg List.length hw
      cases pre with
      | nil => cases hb
      | cons a pre => simp at hlen
    · rw [hs']
      exact hh' b hb
  · unfold extraAt
    omega
  · rw [← hgiven, P'.payloadSz_eq (by simp)]
    rfl
  · rw [hs']
    exact hzero
  · refine P.keeps P' (by rw [hs']; exact e.mono hfree) fun b hb hbl _ => ⟨(hmem b hbl).mpr (.inr hb), fun x =>
      P.not_freeIn hb hbl⟩
  · rw [hs']
    exact e.mem _ fun hx => P.rep.end_not_freeIn (hfree _ hx)

/-- With a free last block only its address and size count. -/
lemma Pic.roomForPage_iff (P : Pic s (pre ++ [w]) L) (hw : w.live = false) :
    RoomForPage s sz ↔ 28 ≤ extraAt w.addr ∧ extraAt w.addr + sz + 12 ≤ w.size := by
  have hwm : w ∈ pre ++ [w] := by simp
  obtain ⟨pre', w', he, -, hwild⟩ := P.rep.wilderness
  obtain ⟨-, rfl⟩ := List.append_singleton_inj.mp he
  unfold RoomForPage
  simp only [hwild, (P.rep.inMem w hwm).size, P.live_iff hwm, hw]
  simp

/-- A legal aligned request leaves a free last block behind what it took. -/
lemma Pic.allocA_rest (P : Pic s (pre ++ [w]) L)
    (hh : pre ++ [w] = [wholeHeap] ∨ Holes s.heap (pre ++ [w])) (hr : RoomForPage s sz) :
    ∃ s' pre' L', Request.step s (.allocA sz) = .ok s' ∧ Pic s' (pre' ++ [rest w sz]) L' ∧
      Holes s'.heap (pre' ++ [rest w sz]) := by
  obtain ⟨pre₁, w₁, s', L', he, -, -, hrun, P', hh', -⟩ := P.allocA hh hr
  obtain ⟨rfl, rfl⟩ := List.append_singleton_inj.mp he
  refine ⟨s', pre ++ [chunk w, given w sz], L', hrun, ?_, ?_⟩
  · rwa [List.append_assoc]
  · rwa [List.append_assoc]

/-- Every legal request leads from a sound heap to a sound one, and leaves the byte behind the heap
alone. -/
lemma Kept.request {m : Mem} {r : Request} (hs : Kept m s) (hr : r.Legal s)
    (hf : m kheapEnd = 0 ∨ r.Enclosed s) :
    ∃ s', r.step s = .ok s' ∧ (∃ bs L, Pic s' bs L ∧ Holes s'.heap bs) ∧
      s'.heap.mem kheapEnd = m kheapEnd := by
  obtain ⟨⟨bs, L, P, hh⟩, hend⟩ := hs
  cases r with
  | plain op =>
    have hf' : Fenced s op := by
      rcases hf with h | h
      · exact fenced_of_end (hend.trans h)
      · cases op with
        | free p => exact .inl h
        | _ => trivial
    obtain ⟨s', hrun, hP, hend'⟩ := sound_step ⟨bs, L, P, hh⟩ hr hf'
    exact ⟨s', hrun, hP, hend'.trans hend⟩
  | allocA sz =>
    obtain ⟨pre, w, s', L', -, -, -, hrun, P', hh', -, -, hend'⟩ := P.allocA hh hr
    exact ⟨s', hrun, ⟨_, _, P', hh'⟩, hend'.trans hend⟩

end

/-- However allocations, aligned allocations, releases and stores follow on each other: the heap is in
order, the payloads are in it and apart from each other, and the next aligned request for which there is
room gets a cleared page boundary of its own and leaves all other payloads as they are. The byte behind
the heap is no hole, or no release looks there. -/
theorem requests_sound (m : Mem) (l : List Request)
    (hl : ∀ s, boot m = .ok s → LegalRun (fun s r => Request.step s r) (fun s r => r.Legal s) s l)
    (hf : m kheapEnd = 0 ∨
      ∀ s, boot m = .ok s → LegalRun (fun s r => Request.step s r) (fun s r => r.Enclosed s) s l) :
    ∃ s₀ s, boot m = .ok s₀ ∧ exec (fun s r => Request.step s r) s₀ l = .ok s ∧
      (l ≠ [] → ∃ as L, HeapInv s as L) ∧
      (∀ p ∈ s.live, kheapStart ≤ p ∧ p + payloadSz s.heap p ≤ kheapEnd) ∧
      s.live.Pairwise (PayloadsApart s.heap) ∧
      ∀ sz, RoomForPage s sz → ∃ s' p, Request.step s (.allocA sz) = .ok s' ∧
        NewPage s s' p sz ∧ Keeps s s' := by
  obtain ⟨s₀, hboot, hk, -⟩ := boot_kept m
  have hl' : LegalRun (fun s r => Request.step s r)
      (fun s r => r.Legal s ∧ (m kheapEnd = 0 ∨ r.Enclosed s)) s₀ l := by
    refine (hl s₀ hboot).and ?_
    rcases hf with h | h
    · exact .of_forall fun _ _ => .inl h
    · exact (h s₀ hboot).imp fun _ _ => .inr
  obtain ⟨s, hex, ⟨⟨bs, L, P, hh⟩, -⟩, hJ⟩ := exec_inv (I := Kept m)
    (J := fun s => (∃ bs L, Pic s bs L ∧ Holes s.heap bs) ∧ s.heap.mem kheapEnd = m kheapEnd)
    (fun s r hs hr => hs.request hr.1 hr.2)
    (fun _ ⟨⟨bs, L, P, hh⟩, he⟩ => ⟨⟨bs, L, P, .inr hh⟩, he⟩) hk hl'
  refine ⟨s₀, s, hboot, hex, fun hne => ?_, fun p => P.payload_bounds, P.payloads_apart,
    fun sz hr => ?_⟩
  · obtain ⟨⟨bs, L, P, hh⟩, -⟩ := hJ hne
    exact ⟨_, L, P.heapInv hh⟩
  · obtain ⟨pre, w, s', L', -, -, -, hrun, -, -, hnew, hk, -⟩ := P.allocA hh hr
    exact ⟨s', _, hrun, hnew, hk⟩

/-- A page, and a payload behind it. -/
theorem requests_sound_page : ∃ s₀ s, boot (fun _ => 0) = .ok s₀ ∧
    exec (fun s r => Request.step s r) s₀ [.allocA 4096, .plain (.alloc 100)] = .ok s ∧
    ([Request.allocA 4096, .plain (.alloc 100)] ≠ [] → ∃ as L, HeapInv s as L) ∧
    (∀ p ∈ s.live, kheapStart ≤ p ∧ p + payloadSz s.heap p ≤ kheapEnd) ∧
    s.live.Pairwise (PayloadsApart s.heap) ∧
    ∀ sz, RoomForPage s sz → ∃ s' p, Request.step s (.allocA sz) = .ok s' ∧
      NewPage s s' p sz ∧ Keeps s s' := by
  refine requests_sound (fun _ => 0) [.allocA 4096, .plain (.alloc 100)] (fun s hs => ?_) (.inl rfl)
  obtain ⟨s₀, hboot, -, P, -⟩ := boot_spec fun _ => 0
  obtain rfl := Except.ok.inj (hboot.symm.trans hs)
  have P₀ : Pic s₀ ([] ++ [wholeHeap]) initBins := P
  have hr : RoomForPage s₀ 4096 := (P₀.roomForPage_iff rfl).mpr (by decide)
  obtain ⟨s', pre', L', hrun, P', -⟩ := P₀.allocA_rest (.inl rfl) hr
  refine (legalRun_cons hrun).mpr ⟨hr, P'.legal_alloc.mpr ?_, fun _ _ => trivial⟩
  exact ⟨rest wholeHeap 4096, by simp, rfl, by decide⟩

/-! ## Aligned requests in a row -/

/-- What an aligned request of `sz` bytes takes from the last block once another one was there: its
bytes, the overhead, and the chunk up to the page boundary. -/
def pageStride (sz : Nat) : Nat := 4096 * ((sz + 12) / 4096 + 1)

section
variable {s : Sys} {pre : List Blk} {w : Blk} {L : Fin binCnt → List Nat} {sz n : Nat}

/-- From a last block that begins where aligned requests of `sz` bytes let it begin. -/
lemma Pic.legal_replicate (P : Pic s (pre ++ [w]) L) (hw : w.live = false)
    (hh : Holes s.heap (pre ++ [w])) (hmod : w.addr % 4096 = (sz + 12) % 4096) :
    LegalRun (fun s r => Request.step s r) (fun s r => r.Legal s) s (List.replicate n (.allocA sz)) ↔
      n = 0 ∨ (sz + 12) % 4096 ≤ 4068 ∧ n * pageStride sz ≤ w.size := by
  have hstride : extraAt w.addr + sz + 12 = pageStride sz := by
    unfold extraAt pageStride
    omega
  induction n generalizing s pre w L with
  | zero => exact iff_of_true trivial (.inl rfl)
  | succ n ih =>
    rw [List.replicate_succ]
    by_cases hr : RoomForPage s sz
    · obtain ⟨s', pre', L', hrun, P', hh'⟩ := P.allocA_rest (.inr hh) hr
      have hroom := (P.roomForPage_iff hw).mp hr
      have haddr : (rest w sz).addr = w.addr + pageStride sz := by
        rw [← hstride]
        show w.addr + extraAt w.addr + sz + 12 = _
        omega
      have hsize : (rest w sz).size = w.size - pageStride sz := by
        rw [← hstride]
        show w.size - extraAt w.addr - sz - 12 = _
        omega
      have hmod' : (rest w sz).addr % 4096 = (sz + 12) % 4096 := by
        rw [haddr]
        unfold pageStride
        omega
      have hstride' : extraAt (rest w sz).addr + sz + 12 = pageStride sz := by
        unfold extraAt pageStride
        omega
      refine (legalRun_cons hrun).trans
        ((and_congr_right fun _ => ih P' rfl hh' hmod' hstride').trans ?_)
      rw [hsize, Nat.succ_mul]
      unfold extraAt at hroom hstride
      constructor
      · rintro ⟨-, h⟩
        rcases h with rfl | h
        · omega
        · omega
      · rintro (h | h)
        · cases h
        · refine ⟨hr, ?_⟩
          by_cases hn : n = 0
          · exact .inl hn
          · exact .inr (by omega)
    · refine iff_of_false (fun h => hr h.1) ?_
      rintro (h | ⟨h₁, h₂⟩)
      · cases h
      · refine hr ((P.roomForPage_iff hw).mpr ?_)
        rw [Nat.succ_mul] at h₂
        unfold extraAt at *
        omega

end

/-- An aligned request of `sz` bytes is served: it gets a cleared page boundary in the heap, away from
the payloads held, leaves these as they are, and cuts the last block to size. -/
def ServedBy (s s' : Sys) (sz : Nat) : Prop :=
  Request.step s (.allocA sz) = .ok s' ∧ ∃ p, NewPage s s' p sz ∧
    kheapStart ≤ p ∧ p + sz + 8 ≤ kheapEnd ∧
    (∀ q ∈ s.live, p + sz + 8 ≤ q ∨ q + payloadSz s.heap q ≤ p) ∧ Keeps s s' ∧
    CutsLast s.heap s'.heap (p - offset) sz

/-- So are `n` of them, one after the other. -/
def Served (sz : Nat) : Nat → Sys → Prop
  | 0, _ => True
  | n + 1, s => ∃ s', ServedBy s s' sz ∧ Served sz n s'

section
variable {s s' : Sys} {bs : List Blk} {L : Fin binCnt → List Nat} {sz n : Nat}

/-- A request for which there is room is served. -/
lemma Pic.served (P : Pic s bs L) (hh : bs = [wholeHeap] ∨ Holes s.heap bs) (hr : RoomForPage s sz) :
    ∃ s' bs' L', ServedBy s s' sz ∧ Pic s' bs' L' ∧ Holes s'.heap bs' := by
  obtain ⟨pre, w, s', L', rfl, -, -, hrun, P', hh', hnew, hk, -⟩ := P.allocA hh hr
  obtain ⟨p, h', hrunA, hp⟩ := P.alignedOk hr
  have hs' : s' = ⟨h', p :: s.live⟩ := by
    have hrun' : Request.step s (.allocA sz) = .ok ⟨h', p :: s.live⟩ := by
      show (kheapAllocA s.heap sz >>= fun x => pure (⟨x.2, x.1 :: s.live⟩ : Sys)) = _
      rw [hrunA]
      rfl
    exact Except.ok.inj (hrun.symm.trans hrun')
  have hpe : w.addr + extraAt w.addr = p := by
    have := hnew.live
    rw [hs'] at this
    exact (List.cons.inj this).1.symm
  obtain ⟨hlo, -, -⟩ := extraAt_fits P.rep
  have hle := extraAt_le w.addr
  rcases hp with ⟨h0, -⟩ | ⟨h₁, h₂, h₃, hcut⟩
  · rw [kheapStart_eq] at hlo
    omega
  · rw [P.rep.start] at h₁
    rw [P.rep.end_] at h₂
    rw [hpe] at hnew
    refine ⟨s', _, L', ⟨hrun, p, hnew, h₁, h₂, h₃, hk, ?_⟩, P', hh'⟩
    rwa [hs']

/-- And no other. -/
lemma Pic.room_of_served (P : Pic s bs L) (h : ServedBy s s' sz) : RoomForPage s sz := by
  obtain ⟨hrun, p, hnew, h₁, h₂, h₃, -, hcut⟩ := h
  obtain ⟨⟨q, h'⟩, hrunA, hs'⟩ := bind_ok.mp hrun
  obtain rfl := Except.ok.inj hs'
  obtain rfl : q = p := (List.cons.inj hnew.live).1
  refine P.alignedOk_iff.mp ⟨q, h', hrunA, .inr ⟨?_, ?_, h₃, hcut⟩⟩
  · rwa [P.rep.start]
  · rwa [P.rep.end_]

/-- Requests in a row are served exactly when there is room for each when its turn comes. -/
lemma Pic.served_iff (P : Pic s bs L) (hh : bs = [wholeHeap] ∨ Holes s.heap bs) :
    Served sz n s ↔ LegalRun (fun s r => Request.step s r) (fun s r => r.Legal s) s
      (List.replicate n (.allocA sz)) := by
  induction n generalizing s bs L with
  | zero => exact Iff.rfl
  | succ n ih =>
    rw [List.replicate_succ]
    by_cases hr : RoomForPage s sz
    · obtain ⟨s', bs', L', hserved, P', hh'⟩ := P.served hh hr
      have hdet : ∀ {t}, ServedBy s t sz → s' = t := fun h =>
        Except.ok.inj (hserved.1.symm.trans h.1)
      rw [legalRun_cons hserved.1, ← ih P' (.inr hh')]
      constructor
      · rintro ⟨t, ht, hrest⟩
        obtain rfl := hdet ht
        exact ⟨hr, hrest⟩
      · rintro ⟨-, hrest⟩
        exact ⟨s', hserved, hrest⟩
    · refine iff_of_false (fun ⟨t, ht, _⟩ => hr (P.room_of_served ht)) fun h => hr h.1

end

/-- How many aligned requests of one size in a row a fresh heap serves. Of 4096 bytes, as a page table
has, it is 127. -/
theorem aligned_capacity (m : Mem) (sz n : Nat) :
    ∃ s, boot m = .ok s ∧ (Served sz (n + 1) s ↔
      (n = 0 ∨ (sz + 12) % 4096 ≤ 4068) ∧ 4108 + sz + n * pageStride sz ≤ wholeHeap.size) := by
  obtain ⟨s, hboot, -, P, -⟩ := boot_spec m
  have hextra : extraAt wholeHeap.addr = 4096 := rfl
  have haddr : wholeHeap.addr % 4096 = 0 := rfl
  have P₀ : Pic s ([] ++ [wholeHeap]) initBins := P
  refine ⟨s, hboot, ?_⟩
  rw [P.served_iff (.inl rfl), List.replicate_succ]
  by_cases hr : RoomForPage s sz
  · have hroom := (P₀.roomForPage_iff rfl).mp hr
    obtain ⟨s', pre', L', hrun, P', hh'⟩ := P₀.allocA_rest (.inl rfl) hr
    have hsize : (rest wholeHeap sz).size = wholeHeap.size - 4096 - sz - 12 := rfl
    have hmod : (rest wholeHeap sz).addr % 4096 = (sz + 12) % 4096 := by
      show (wholeHeap.addr + extraAt wholeHeap.addr + sz + 12) % 4096 = _
      omega
    rw [legalRun_cons hrun, P'.legal_replicate rfl hh' hmod, hsize]
    constructor
    · rintro ⟨-, h⟩
      rcases h with rfl | h
      · omega
      · omega
    · rintro ⟨h, h'⟩
      refine ⟨hr, ?_⟩
      by_cases hn : n = 0
      · exact .inl hn
      · exact .inr (by omega)
  · refine iff_of_false (fun h => hr h.1) ?_
    rintro ⟨-, h⟩
    exact hr ((P₀.roomForPage_iff rfl).mpr (by omega))

end ToeS.Kheap
