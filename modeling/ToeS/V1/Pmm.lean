import ToeS.Boot.Multiboot
import ToeS.Lib.SlotStack
import ToeS.V1.Defs

/-!
# The v1 frame stack

Model of `init_pmm` (`v1/os/pmm.c`), which fills the frame stack from the multiboot memory map;
`push_frame` and `pop_frame` are modelled beside the heap that they feed. The map is read from the
memory that the pushes write to. A `Walk` is the state of `init_pmm` with a record of the addresses that
it reads entries at and of the frames that it pushes; what it prints is left out.

The loop over the map steps to the next entry before it reads one. So the first entry is never used,
and in place of it the bytes behind the map are (`MapAt.pushed`); of each region the last frame is left
out (`pushes_iff`).

While `kmalloc` is the placement allocator, `push_frame` takes a new slot and `pop_frame` moves down by
one: the frame stack is a `SlotStack` (`Slots`), and a stack under the calls that are covered only
(`initPmm_stacked`).
-/

namespace ToeS.V1
open Lib Kheap
open Boot (MbootMemmap readMemmap u64 Laid)

/-- The fields of `multiboot_info_t` that `init_pmm` reads. -/
structure MultibootInfo where
  flags : Nat
  mmapLength : Nat
  mmapAddr : Nat

/-- `init_pmm` on its way: its state, the entries it has read and the frames it has pushed. -/
structure Walk where
  st : State
  reads : List Nat
  pushed : List Nat

/-- `alloc_start`, rounded up to a page. -/
def allocStart (e : MbootMemmap) : Nat :=
  let start := u32 e.baseAddr
  if start % 0x1000 ≠ 0 then u32 (start + (0x1000 - start % 0x1000)) else start

/-- `alloc_end`, rounded down to a page. -/
def allocEnd (e : MbootMemmap) : Nat :=
  let stop := u32 (u64 (e.baseAddr + e.length))
  if stop % 0x1000 ≠ 0 then sub32 stop (stop % 0x1000) else stop

/-- Steps of one page through the address space, and one more. -/
def regionSteps : Nat := 1048577

section
variable (alloc : State → Nat → Except Fault (State × Nat))

/-- `push_frame` in `init_pmm`. -/
def Walk.push (w : Walk) (addr : Nat) : Except Fault Walk := do
  let st ← pushFrame alloc w.st addr
  return { w with st := st, pushed := w.pushed ++ [addr] }

/-- The inner loop of `init_pmm`, from `curr` on. -/
def regionLoop (kernEnd stop : Nat) : Nat → Nat → Walk → Except Fault Walk
  | 0, _, _ => .error .diverges
  | n + 1, curr, w =>
    if curr < stop then do
      let w ← if curr > kernEnd then w.push alloc curr else pure w
      regionLoop kernEnd stop n (u32 (curr + 0x1000)) w
    else .ok w

/-- What `init_pmm` does with an entry. -/
def pushRegion (kernEnd : Nat) (e : MbootMemmap) (w : Walk) : Except Fault Walk :=
  if e.type = 1 then
    if e.baseAddr < 0x100000 then .ok w
    else regionLoop alloc kernEnd (sub32 (allocEnd e) 0x1000) regionSteps (allocStart e) w
  else .ok w

/-- The outer loop of `init_pmm`, for at most `n` rounds. The pointer `mmap` moves on before the entry
is read. -/
def mmapLoop (kernEnd stop : Nat) : Nat → Nat → Walk → Except Fault Walk
  | 0, _, _ => .error .diverges
  | n + 1, mmap, w =>
    if mmap < stop then do
      let next := u32 (mmap + readWord w.st.heap.mem mmap + 4)
      let w := { w with reads := w.reads ++ [mmap, next] }
      let w ← pushRegion alloc kernEnd (readMemmap w.st.heap.mem next) w
      mmapLoop kernEnd stop n next w
    else .ok w

/-- C `init_pmm`, for at most `n` rounds of its outer loop. -/
def initPmm (n : Nat) (s : State) (mbi : MultibootInfo) (kernEnd : Nat) : Except Fault Walk :=
  let s := { s with placementAddr := kernEnd, bottom := kernEnd }
  if mbi.flags &&& 1 <<< 6 ≠ 0 then
    mmapLoop alloc kernEnd (u32 (mbi.mmapAddr + mbi.mmapLength)) n mbi.mmapAddr ⟨s, [], []⟩
  else .ok ⟨s, [], []⟩

/-- What the calls of `pop_frame` return in a sequence of `push_frame` and `pop_frame`. -/
def frameRun (s : State) : List (StackCall Nat) → Except Fault (List Nat)
  | [] => .ok []
  | .push addr :: calls => do
    let s ← pushFrame alloc s addr
    frameRun s calls
  | .pop :: calls => do
    let (s, ret) := popFrame s
    let rets ← frameRun s calls
    return ret :: rets

end

/-! ## The memory map -/

/-- The memory map is `es`: entries one behind the other, below 4 GiB and apart from each other. -/
structure MapAt (m : Mem) (mbi : MultibootInfo) (es : List MbootMemmap) : Prop where
  flag : mbi.flags &&& 1 <<< 6 ≠ 0
  laid : Laid m (mbi.mmapAddr + mbi.mmapLength) mbi.mmapAddr es
  fits : mbi.mmapAddr + mbi.mmapLength < 4294967296
  below : ∀ e ∈ es, e.baseAddr + e.length ≤ 4294967296
  apart : es.Pairwise fun e e' =>
    e.baseAddr + e.length ≤ e'.baseAddr ∨ e'.baseAddr + e'.length ≤ e.baseAddr

/-- The frame at `f` lies wholly inside the region `e`, which is available and not in the first MiB. -/
def WhollyIn (e : MbootMemmap) (f : Nat) : Prop :=
  e.type = 1 ∧ 0x100000 ≤ e.baseAddr ∧ e.baseAddr ≤ f ∧ f + 0x1000 ≤ e.baseAddr + e.length

/-- `init_pmm` returns, pushes each frame of the map above `kernEnd` once and no other frame, and reads
inside the map only. -/
def Filled (alloc : State → Nat → Except Fault (State × Nat)) (s : State) (mbi : MultibootInfo)
    (kernEnd : Nat) (es : List MbootMemmap) : Prop :=
  ∃ n w, initPmm alloc n s mbi kernEnd = .ok w ∧ w.pushed.Nodup ∧
    (∀ f, f ∈ w.pushed ↔ f % 0x1000 = 0 ∧ kernEnd < f ∧ ∃ e ∈ es, WhollyIn e f) ∧
    ∀ a ∈ w.reads, mbi.mmapAddr ≤ a ∧ a + 24 ≤ mbi.mmapAddr + mbi.mmapLength

/-- A memory with an available region entered at `a`. -/
def storeEntry (m : Mem) (a base len : Nat) : Mem :=
  let m := writeWord m a 20
  let m := writeWord m (a + 4) base
  let m := writeWord m (a + 12) len
  writeWord m (a + 20) 1

/-- A state before `init_pmm`, with a map of two regions in memory. -/
def twoRegions : State where
  heap :=
    { mem := storeEntry (storeEntry (fun _ => 0) 0x9000 0 0x9F000) 0x9018 0x200000 0x4000
      start := 0
      end_ := 0
      bins := fun _ => 0 }
  max := 0
  dir := fun _ => false
  tables := fun _ => 0
  top := 0
  bottom := 0
  placementAddr := 0
  kheapInit := false

/-- What the boot loader says of that map. -/
def twoRegionsInfo : MultibootInfo := ⟨64, 48, 0x9000⟩

/-- The two entries lie behind each other. -/
lemma twoRegions_map : MapAt twoRegions.heap.mem twoRegionsInfo
    [⟨20, 0, 0x9F000, 1⟩, ⟨20, 0x200000, 0x4000, 1⟩] := by
  refine ⟨by decide, ⟨rfl, by decide, rfl, by decide, rfl⟩, by decide, ?_, ?_⟩
  · simp
  · simp

/-! ## Pushes -/

/-- What `push_frame` does to the state while the placement allocator serves `kmalloc`. -/
def State.place (s : State) (addr : Nat) : State :=
  { s with
    heap := { s.heap with mem := writeWord s.heap.mem s.placementAddr addr }
    placementAddr := u32 (s.placementAddr + 4)
    top := s.placementAddr }

/-- The walk after some pushes. -/
def Walk.pushes (w : Walk) (fs : List Nat) : Walk :=
  { w with st := fs.foldl State.place w.st, pushed := w.pushed ++ fs }

section
variable {alloc : State → Nat → Except Fault (State × Nat)} {s : State} {w w' : Walk}
  {kernEnd stop curr n mmap : Nat} {e : MbootMemmap}

/-- Before the heap is there a push writes behind the last one. -/
lemma pushFrame_eq (hk : s.kheapInit = false) (addr : Nat) :
    pushFrame alloc s addr = .ok (s.place addr) := by
  rw [pushFrame, kmalloc, if_neg (by simp [hk])]
  rfl

/-- Pushes do not start the heap. -/
@[simp] lemma kheapInit_places (fs : List Nat) :
    (fs.foldl State.place s).kheapInit = s.kheapInit := by
  induction fs generalizing s with
  | nil => rfl
  | cons f fs ih => exact ih

/-- A push of the walk is a push. -/
lemma Walk.push_eq (hk : w.st.kheapInit = false) (addr : Nat) :
    w.push alloc addr = .ok (w.pushes [addr]) := by
  rw [Walk.push, pushFrame_eq hk]
  rfl

/-- Pushes one after the other are pushes of one list. -/
lemma Walk.pushes_append (fs fs' : List Nat) : (w.pushes fs).pushes fs' = w.pushes (fs ++ fs') := by
  simp [Walk.pushes, List.foldl_append]

/-- Without frames nothing is pushed. -/
lemma Walk.pushes_nil : w.pushes [] = w := by simp [Walk.pushes]

/-- Frames in increasing order, those of `P`. -/
structure FramesOf (P : Nat → Prop) (fs : List Nat) : Prop where
  sorted : fs.Pairwise (· < ·)
  mem_iff : ∀ f, f ∈ fs ↔ P f

/-- The inner loop pushes the frames from `curr` below `stop` that are above the kernel. -/
lemma regionLoop_spec (hk : w.st.kheapInit = false) (hcurr : curr % 4096 = 0)
    (hstop : stop % 4096 = 0) (hlt : stop < 4294967296) (hn : stop ≤ curr + 4096 * n) :
    ∃ fs, regionLoop alloc kernEnd stop (n + 1) curr w = .ok (w.pushes fs) ∧ fs.length ≤ n ∧
      FramesOf (fun f => f % 4096 = 0 ∧ kernEnd < f ∧ curr ≤ f ∧ f < stop) fs := by
  induction n generalizing curr w with
  | zero =>
    refine ⟨[], by rw [regionLoop, if_neg (by omega), Walk.pushes_nil], le_refl _, .nil, fun f => ?_⟩
    simp
    omega
  | succ n ih =>
    by_cases hc : curr < stop
    · have hu : u32 (curr + 0x1000) = curr + 4096 := u32_eq (by omega)
      have hmod : (curr + 4096) % 4096 = 0 := by omega
      by_cases hkern : curr > kernEnd
      · obtain ⟨fs, hr, hlen, hfs⟩ := ih (w := w.pushes [curr]) hk hmod (by omega)
        refine ⟨curr :: fs, ?_, Nat.succ_le_succ hlen, List.pairwise_cons.mpr ⟨fun f hf => ?_,
          hfs.sorted⟩, fun f => ?_⟩
        · rw [regionLoop, if_pos hc]
          simp only [if_pos hkern, Walk.push_eq hk, hu, bind, Except.bind, hr,
            Walk.pushes_append, List.singleton_append]
        · have := (hfs.mem_iff f).mp hf
          omega
        · rw [List.mem_cons, hfs.mem_iff]
          omega
      · obtain ⟨fs, hr, hlen, hfs⟩ := ih (w := w) hk hmod (by omega)
        refine ⟨fs, ?_, Nat.le_succ_of_le hlen, hfs.sorted, fun f => ?_⟩
        · rw [regionLoop, if_pos hc]
          simp only [if_neg hkern, hu, bind, Except.bind, pure, Except.pure, hr]
        · rw [hfs.mem_iff]
          omega
    · refine ⟨[], by rw [regionLoop, if_neg hc, Walk.pushes_nil], Nat.zero_le _, .nil, fun f => ?_⟩
      simp
      omega

/-- A region is begun at a frame. -/
lemma allocStart_mod (e : MbootMemmap) : allocStart e % 4096 = 0 := by
  have := u32_lt e.baseAddr
  simp only [allocStart]
  split_ifs <;> unfold u32 at * <;> omega

/-- A region is ended at a frame. -/
lemma allocEnd_mod (e : MbootMemmap) : allocEnd e % 4096 = 0 := by
  have := u32_lt (u64 (e.baseAddr + e.length))
  simp only [allocEnd]
  split_ifs
  · rw [sub32_eq (Nat.mod_le _ _) this]
    omega
  · omega

/-- The frame `f` is one of those that `init_pmm` pushes for the region `e`. -/
def Pushes (kernEnd : Nat) (e : MbootMemmap) (f : Nat) : Prop :=
  (e.type = 1 ∧ 0x100000 ≤ e.baseAddr) ∧ f % 4096 = 0 ∧ kernEnd < f ∧ allocStart e ≤ f ∧
    f < sub32 (allocEnd e) 0x1000

/-- These are the frames of the region above the kernel, without the last one. -/
lemma pushes_iff {f : Nat} (hstart : e.baseAddr ≤ 0xFFFFF000)
    (hend : e.baseAddr + e.length ≤ 4294967296) :
    Pushes kernEnd e f ↔ f % 4096 = 0 ∧ kernEnd < f ∧ WhollyIn e f ∧ WhollyIn e (f + 0x1000) := by
  have hs : ∀ f, f % 4096 = 0 → (allocStart e ≤ f ↔ e.baseAddr ≤ f) := by
    intro f hf
    simp only [allocStart, u32_eq (n := e.baseAddr) (by omega)]
    split_ifs
    · rw [u32_eq (by omega)]
      omega
    · rfl
  have he : 0x100000 ≤ e.baseAddr → f % 4096 = 0 →
      (f < sub32 (allocEnd e) 0x1000 ↔ f + 0x2000 ≤ e.baseAddr + e.length) := by
    intro hlow hf
    have h64 : u64 (e.baseAddr + e.length) = e.baseAddr + e.length := Nat.mod_eq_of_lt (by omega)
    simp only [allocEnd, h64]
    rcases Nat.eq_or_lt_of_le hend with h4 | h4
    · rw [h4, show u32 4294967296 = 0 from rfl, if_neg (by decide),
        show sub32 0 0x1000 = 0xFFFFF000 from rfl]
      omega
    · rw [u32_eq h4]
      split_ifs with hmod
      · rw [sub32_eq (Nat.mod_le _ _) h4, sub32_eq (by omega) (by omega)]
        omega
      · rw [sub32_eq (by omega) h4]
        omega
  constructor
  · rintro ⟨⟨ht, hlow⟩, hf, hkern, h₁, h₂⟩
    have h₁ := (hs f hf).mp h₁
    have h₂ := (he hlow hf).mp h₂
    exact ⟨hf, hkern, ⟨ht, hlow, h₁, by omega⟩, ht, hlow, by omega, h₂⟩
  · rintro ⟨hf, hkern, ⟨ht, hlow, h₁, -⟩, -, -, -, h₂⟩
    exact ⟨⟨ht, hlow⟩, hf, hkern, (hs f hf).mpr h₁, (he hlow hf).mpr h₂⟩

/-- What `init_pmm` does with an entry. -/
lemma pushRegion_spec (alloc : State → Nat → Except Fault (State × Nat)) (w : Walk)
    (hk : w.st.kheapInit = false) (kernEnd : Nat) (e : MbootMemmap) :
    ∃ fs, pushRegion alloc kernEnd e w = .ok (w.pushes fs) ∧ fs.length ≤ 1048576 ∧
      FramesOf (Pushes kernEnd e) fs := by
  have hmod : sub32 (allocEnd e) 0x1000 % 4096 = 0 := by
    have := allocEnd_mod e
    unfold sub32
    omega
  have hlt := sub32_lt (allocEnd e) 0x1000
  rw [pushRegion]
  split_ifs with ht hlow
  · refine ⟨[], by rw [Walk.pushes_nil], Nat.zero_le _, .nil, fun f => ?_⟩
    simp [Pushes]
    omega
  · obtain ⟨fs, hr, hlen, hfs⟩ := regionLoop_spec (n := 1048576) hk (allocStart_mod e) hmod hlt
      (by omega)
    refine ⟨fs, hr, hlen, hfs.sorted, fun f => ?_⟩
    rw [hfs.mem_iff]
    exact (and_iff_right ⟨ht, Nat.le_of_not_lt hlow⟩).symm
  · refine ⟨[], by rw [Walk.pushes_nil], Nat.zero_le _, .nil, fun f => ?_⟩
    simp [Pushes, ht]

/-- A push reads nothing of the map. -/
lemma Walk.push_reads (h : w.push alloc curr = .ok w') : w'.reads = w.reads := by
  obtain ⟨st, -, h⟩ := bind_ok.mp h
  cases h
  rfl

/-- The loop over a region reads nothing of the map. -/
lemma regionLoop_reads (h : regionLoop alloc kernEnd stop n curr w = .ok w') :
    w'.reads = w.reads := by
  induction n generalizing curr w with
  | zero => cases h
  | succ n ih =>
    rw [regionLoop] at h
    split_ifs at h with hc hkern
    · obtain ⟨w₁, h₁, h⟩ := bind_ok.mp h
      rw [ih h, Walk.push_reads h₁]
    · exact ih h
    · cases h
      rfl

/-- What is done for a region reads nothing of the map but its entry. -/
lemma pushRegion_reads (h : pushRegion alloc kernEnd e w = .ok w') : w'.reads = w.reads := by
  rw [pushRegion] at h
  split_ifs at h
  · cases h
    rfl
  · exact regionLoop_reads h
  · cases h
    rfl

/-- The outer loop ends with the read of an entry that is not before `stop`, if it begins at all. -/
lemma mmapLoop_reads (h : mmapLoop alloc kernEnd stop n mmap w = .ok w') :
    w.reads ⊆ w'.reads ∧ (mmap < stop → ∃ a ∈ w'.reads, stop ≤ a) := by
  induction n generalizing mmap w with
  | zero => cases h
  | succ n ih =>
    rw [mmapLoop] at h
    split_ifs at h with hlt
    · obtain ⟨w₁, h₁, h⟩ := bind_ok.mp h
      obtain ⟨hsub, hend⟩ := ih h
      rw [pushRegion_reads h₁] at hsub
      refine ⟨fun x hx => hsub (List.mem_append_left _ hx), fun _ => ?_⟩
      by_cases hnext : u32 (mmap + readWord w.st.heap.mem mmap + 4) < stop
      · exact hend hnext
      · exact ⟨_, hsub (by simp), Nat.le_of_not_lt hnext⟩
    · cases h
      exact ⟨List.Subset.refl _, fun h => absurd h hlt⟩

/-- While the placement allocator serves `kmalloc`, all that `init_pmm` does to the state is to push
frames. -/
lemma mmapLoop_places (hk : w.st.kheapInit = false)
    (h : mmapLoop alloc kernEnd stop n mmap w = .ok w') :
    ∃ fs, w'.st = fs.foldl State.place w.st ∧ w'.pushed = w.pushed ++ fs ∧
      ∀ f ∈ fs, f < 0xFFFFFFFF := by
  induction n generalizing mmap w with
  | zero => cases h
  | succ n ih =>
    rw [mmapLoop] at h
    split_ifs at h with hlt
    · obtain ⟨w₁, h₁, h⟩ := bind_ok.mp h
      obtain ⟨fs, hr, -, hfs⟩ := pushRegion_spec alloc
        { w with reads := w.reads ++ [mmap, u32 (mmap + readWord w.st.heap.mem mmap + 4)] } hk kernEnd
        (readMemmap w.st.heap.mem (u32 (mmap + readWord w.st.heap.mem mmap + 4)))
      obtain rfl := Except.ok.inj (hr.symm.trans h₁)
      obtain ⟨fs', hst, hpushed, hfs'⟩ := ih (by simpa [Walk.pushes] using hk) h
      refine ⟨fs ++ fs', by rw [hst, List.foldl_append]; rfl, by rw [hpushed, Walk.pushes,
        List.append_assoc], fun f hf => ?_⟩
      rcases List.mem_append.mp hf with hf | hf
      · have := ((hfs.mem_iff f).mp hf).2.2.2.2
        have := sub32_lt (allocEnd (readMemmap w.st.heap.mem
          (u32 (mmap + readWord w.st.heap.mem mmap + 4)))) 0x1000
        omega
      · exact hfs' f hf
    · cases h
      exact ⟨[], rfl, by simp, by simp⟩

/-- Pushes change only the memory from the placement address on. -/
lemma places_sameOff {fs : List Nat} (hfit : s.placementAddr + 4 * fs.length < 4294967296) :
    SameOff (s.placementAddr ≤ ·) s.heap.mem (fs.foldl State.place s).heap.mem ∧
      (fs.foldl State.place s).placementAddr = s.placementAddr + 4 * fs.length := by
  induction fs generalizing s with
  | nil => exact ⟨.refl _ _, rfl⟩
  | cons f fs ih =>
    rw [List.length_cons] at hfit ⊢
    have hp : (s.place f).placementAddr = s.placementAddr + 4 := u32_eq (by omega)
    obtain ⟨hmem, hplace⟩ := ih (s := s.place f) (by omega)
    have hword : SameOff (s.placementAddr ≤ ·) s.heap.mem (s.place f).heap.mem :=
      (SameOff.writeWord (by omega)).mono fun x hx => hx.1
    refine ⟨hword.trans (hmem.mono fun x hx => ?_), ?_⟩
    · rw [hp] at hx
      exact le_trans (Nat.le_add_right _ _) hx
    · rw [List.foldl_cons, hplace, hp]
      omega

/-- An entry below the window reads as before. -/
lemma readMemmap_sameOff {m m' : Mem} {lim a : Nat} (h : SameOff (lim ≤ ·) m m')
    (ha : a + 24 ≤ lim) (hlim : lim ≤ 4294967296) : readMemmap m' a = readMemmap m a := by
  have hword : ∀ k, k + 4 ≤ 24 → readWord m' (a + k) = readWord m (a + k) := fun k hk =>
    h.readWord (by omega) fun x hx hle => by have := hx.2; omega
  have hquad : ∀ k, k + 8 ≤ 24 → Boot.readQuad m' (a + k) = Boot.readQuad m (a + k) := by
    intro k hk
    rw [Boot.readQuad, Boot.readQuad, Nat.add_assoc, hword k (by omega), hword (k + 4) (by omega)]
  rw [readMemmap, readMemmap, hquad 4 (by decide), hquad 12 (by decide), hword 20 (by decide)]
  exact congrArg (MbootMemmap.mk · _ _ _) (hword 0 (by decide))

/-- The entries that the walk over a map uses: all but the first, and what lies behind the map. -/
def usedEntries (behind : MbootMemmap) : List MbootMemmap → List MbootMemmap
  | [] => []
  | _ :: es => es ++ [behind]

/-- The frames pushed for some regions, region by region. -/
def PushedFor (kernEnd : Nat) (es : List MbootMemmap) (fs : List Nat) : Prop :=
  ∃ fss, List.Forall₂ (fun e fs => FramesOf (Pushes kernEnd e) fs) es fss ∧ fs = fss.flatten

/-- The walk over a map that the frame stack does not reach. -/
lemma mmapLoop_spec {m : Mem} {a lim : Nat} {es : List MbootMemmap} (hk : w.st.kheapInit = false)
    (hl : Laid m stop a es) (hmem : SameOff (lim ≤ ·) m w.st.heap.mem) (hlim : stop + 24 ≤ lim)
    (hplace : lim ≤ w.st.placementAddr)
    (hroom : w.st.placementAddr + 4194304 * es.length < 4294967296) :
    ∃ w' fs, mmapLoop alloc kernEnd stop (es.length + 1) a w = .ok w' ∧
      w'.pushed = w.pushed ++ fs ∧ PushedFor kernEnd (usedEntries (readMemmap m stop) es) fs := by
  induction es generalizing a w with
  | nil =>
    obtain rfl : a = stop := hl
    exact ⟨w, [], by rw [List.length_nil, mmapLoop, if_neg (lt_irrefl a)], by simp, [], .nil, rfl⟩
  | cons e es ih =>
    obtain ⟨rfl, hsize, hl⟩ := hl
    have hle := Boot.Laid.le hl
    rw [List.length_cons] at hroom ⊢
    have hread : ∀ b, b + 24 ≤ lim → readMemmap w.st.heap.mem b = readMemmap m b :=
      fun b hb => readMemmap_sameOff hmem hb (by omega)
    have hsz : readWord w.st.heap.mem a = (readMemmap m a).size :=
      congrArg MbootMemmap.size (hread a (by omega))
    have hnext : u32 (a + readWord w.st.heap.mem a + 4) = a + (readMemmap m a).size + 4 := by
      rw [hsz, u32_eq (by omega)]
    -- the entry that is used is the next one, or what lies behind the map
    obtain ⟨used, rest, hused, hrest⟩ : ∃ used rest,
        readMemmap m (a + (readMemmap m a).size + 4) = used ∧
          usedEntries (readMemmap m stop) (readMemmap m a :: es) = used :: rest ∧
          usedEntries (readMemmap m stop) es = rest := by
      cases es with
      | nil =>
        obtain rfl : a + (readMemmap m a).size + 4 = stop := hl
        exact ⟨_, [], rfl, rfl, rfl⟩
      | cons e' es => exact ⟨e', _, hl.1, rfl, rfl⟩
    obtain ⟨fs, hr, hlen, hfs⟩ := pushRegion_spec alloc
      { w with reads := w.reads ++ [a, a + (readMemmap m a).size + 4] } hk kernEnd used
    have hlt : a < stop := by omega
    have hbehind : a + (readMemmap m a).size + 4 + 24 ≤ lim := by omega
    have hfit : w.st.placementAddr + 4 * fs.length < 4294967296 := by omega
    obtain ⟨hoff, hmoved⟩ := places_sameOff hfit
    obtain ⟨w', fs', hrun, hpushed, fss, hall, rfl⟩ := ih
      (w := Walk.pushes { w with reads := w.reads ++ [a, a + (readMemmap m a).size + 4] } fs)
      (by simpa [Walk.pushes] using hk) hl (hmem.trans (hoff.mono fun x hx => le_trans hplace hx))
      (by simp only [Walk.pushes]; omega) (by simp only [Walk.pushes]; omega)
    refine ⟨w', fs ++ fss.flatten, ?_, ?_, fs :: fss, ?_, rfl⟩
    · rw [mmapLoop, if_pos hlt]
      simp only [hnext, hread _ hbehind, hused, hr, bind, Except.bind]
      exact hrun
    · rw [hpushed, Walk.pushes, List.append_assoc]
    · rw [hrest.1]
      exact .cons hfs (hrest.2 ▸ hall)

/-! ## The map and its end -/

/-- `init_pmm` reads past the end of every map that has an entry. -/
lemma MapAt.not_filled {m : Mem} {mbi : MultibootInfo} {e : MbootMemmap} {es : List MbootMemmap}
    (hm : MapAt m mbi (e :: es)) : ¬ Filled alloc s mbi kernEnd (e :: es) := by
  rintro ⟨n, w, hr, -, -, hreads⟩
  have hle := Boot.Laid.le hm.laid.2.2
  have hfits := hm.fits
  rw [initPmm, if_pos hm.flag, u32_eq hfits] at hr
  obtain ⟨a, ha, hstop⟩ := (mmapLoop_reads hr).2 (by omega)
  have := (hreads a ha).2
  omega

/-- Where the frame stack does not reach the map, `init_pmm` pushes the frames of all regions but the
first one, and those of what lies behind the map. -/
theorem MapAt.pushed {mbi : MultibootInfo} {es : List MbootMemmap} (hm : MapAt s.heap.mem mbi es)
    (hk : s.kheapInit = false) (hkern : mbi.mmapAddr + mbi.mmapLength + 24 ≤ kernEnd)
    (hroom : kernEnd + 4194304 * es.length < 4294967296) :
    ∃ w, initPmm alloc (es.length + 1) s mbi kernEnd = .ok w ∧
      PushedFor kernEnd
        (usedEntries (readMemmap s.heap.mem (mbi.mmapAddr + mbi.mmapLength)) es) w.pushed := by
  obtain ⟨w, fs, hr, hpushed, hfs⟩ : ∃ w fs,
      mmapLoop alloc kernEnd (mbi.mmapAddr + mbi.mmapLength) (es.length + 1) mbi.mmapAddr
        ⟨{ s with placementAddr := kernEnd, bottom := kernEnd }, [], []⟩ = .ok w ∧
      w.pushed = [] ++ fs ∧ PushedFor kernEnd
        (usedEntries (readMemmap s.heap.mem (mbi.mmapAddr + mbi.mmapLength)) es) fs :=
    mmapLoop_spec hk hm.laid (.refl _ _) hkern (le_refl kernEnd) hroom
  refine ⟨w, ?_, ?_⟩
  · rw [initPmm, if_pos hm.flag, u32_eq hm.fits]
    exact hr
  · rw [hpushed]
    exact hfs

/-- `init_pmm` does nothing with a map that has no entry. -/
lemma MapAt.filled_nil {m : Mem} {mbi : MultibootInfo} (hm : MapAt m mbi []) :
    Filled alloc s mbi kernEnd [] := by
  have hlen : mbi.mmapAddr = mbi.mmapAddr + mbi.mmapLength := hm.laid
  refine ⟨1, ⟨{ s with placementAddr := kernEnd, bottom := kernEnd }, [], []⟩, ?_, .nil, ?_, ?_⟩
  · rw [initPmm, if_pos hm.flag, u32_eq hm.fits, mmapLoop, if_neg (by omega)]
  · simp
  · simp

end

/-- `init_pmm` fills the frame stack from the whole of a memory map, and reads inside it only, exactly
when the map has no entry. -/
theorem initPmm_filled_iff (alloc : State → Nat → Except Fault (State × Nat)) (s : State)
    (mbi : MultibootInfo) (kernEnd : Nat) (es : List MbootMemmap) (hm : MapAt s.heap.mem mbi es) :
    Filled alloc s mbi kernEnd es ↔ es = [] := by
  cases es with
  | nil => exact iff_of_true hm.filled_nil rfl
  | cons e es => exact iff_of_false hm.not_filled (List.cons_ne_nil e es)

/-- A map without entries, and one of two regions. -/
theorem initPmm_filled_maps :
    Filled alloc twoRegions ⟨64, 0, 0x9000⟩ 0x180000 [] ∧
      (Filled alloc twoRegions twoRegionsInfo 0x180000
          [⟨20, 0, 0x9F000, 1⟩, ⟨20, 0x200000, 0x4000, 1⟩] ↔
        [(⟨20, 0, 0x9F000, 1⟩ : MbootMemmap), ⟨20, 0x200000, 0x4000, 1⟩] = []) := by
  have hm : MapAt twoRegions.heap.mem ⟨64, 0, 0x9000⟩ [] :=
    ⟨by decide, rfl, by decide, by simp, .nil⟩
  exact ⟨(initPmm_filled_iff alloc twoRegions ⟨64, 0, 0x9000⟩ 0x180000 [] hm).mpr rfl,
    initPmm_filled_iff alloc twoRegions twoRegionsInfo 0x180000 _ twoRegions_map⟩

/-- A map of two regions. -/
theorem initPmm_not_filled :
    MapAt twoRegions.heap.mem twoRegionsInfo
      [⟨20, 0, 0x9F000, 1⟩, ⟨20, 0x200000, 0x4000, 1⟩] ∧
    ¬ Filled alloc twoRegions twoRegionsInfo 0x180000
      [⟨20, 0, 0x9F000, 1⟩, ⟨20, 0x200000, 0x4000, 1⟩] :=
  ⟨twoRegions_map, twoRegions_map.not_filled⟩

/-! ## The stack -/

/-- The word that `pop_frame` returns. -/
def popResult : Option Nat → Nat
  | none => 0xFFFFFFFF
  | some f => f

/-- From the slots above `b` on, `push_frame` and `pop_frame` work on the stack `t`. -/
structure Slots (b : Nat) (s : State) (t : SlotStack Nat) : Prop where
  init : s.kheapInit = false
  bottom : s.bottom = b
  placement : s.placementAddr = u32 (b + 4 * t.slots.length)
  slot : ∀ k f, t.slots[k]? = some f → readWord s.heap.mem (b + 4 * k) = f
  top : 0 < t.height → s.top + 4 = b + 4 * t.height

section
variable {alloc : State → Nat → Except Fault (State × Nat)} {s : State} {t : SlotStack Nat}
  {b addr : Nat} {calls : List (StackCall Nat)}

/-- A push keeps to the abstract stack. -/
lemma Slots.push (h : Slots b s t) (haddr : addr < 4294967296)
    (hfit : b + 4 * (t.slots.length + 1) ≤ 4294967296) : Slots b (s.place addr) (t.push addr) := by
  have hp : s.placementAddr = b + 4 * t.slots.length := by
    rw [h.placement, u32_eq (by omega)]
  refine ⟨h.init, h.bottom, ?_, fun k f hk => ?_, fun _ => ?_⟩
  · simp only [State.place, hp, SlotStack.push, List.length_append, List.length_singleton]
    congr 1
  · simp only [State.place, hp, SlotStack.push] at hk ⊢
    rcases Nat.lt_trichotomy k t.slots.length with hlt | rfl | hgt
    · rw [List.getElem?_append_left hlt] at hk
      rw [readWord_writeWord_ne (by omega) (by omega) (by omega), h.slot k f hk]
    · rw [List.getElem?_append_right (le_refl _), Nat.sub_self] at hk
      obtain rfl : addr = f := by simpa using hk
      exact readWord_writeWord (by omega) haddr
    · rw [List.getElem?_eq_none (by simp; omega)] at hk
      cases hk
  · simp only [State.place, hp, SlotStack.push]
    omega

/-- A pop that is not at the bottom returns the word at the top. -/
lemma popFrame_eq (h : s.top ≠ s.bottom) :
    popFrame s = ({ s with top := sub32 s.top 4 }, readWord s.heap.mem s.top) := by
  rw [popFrame, if_neg h]

/-- A pop keeps to the abstract stack and returns what that does. -/
lemma Slots.pop (h : Slots b s t) (hpos : 0 < t.height)
    (hfit : b + 4 * t.slots.length ≤ 4294967296) :
    (popFrame s).2 = popResult t.pop.2 ∧ Slots b (popFrame s).1 t.pop.1 := by
  have htop := h.top hpos
  have hbottom := h.bottom
  have hle := t.le
  by_cases hlow : t.height ≤ 1
  · have hbot : s.top = s.bottom := by omega
    rw [popFrame, if_pos hbot, t.pop_low hlow]
    exact ⟨rfl, h⟩
  · have hbot : s.top ≠ s.bottom := by omega
    have hlt : t.height - 1 < t.slots.length := by omega
    have hs : s.top = b + 4 * (t.height - 1) := by omega
    have hdown : sub32 s.top 4 + 4 = s.top := by
      rw [sub32_eq (by omega) (by omega)]
      omega
    rw [popFrame_eq hbot, t.pop_high (by omega)]
    constructor
    · have hslot := h.slot (t.height - 1) _ (List.getElem?_eq_getElem hlt)
      rw [List.getElem?_eq_getElem hlt, hs, hslot, popResult]
    · -- the projections are reduced before anything is unified with a field of the new state
      dsimp only
      refine ⟨?_, ?_, ?_, ?_, fun _ => ?_⟩
      all_goals dsimp only
      · exact h.init
      · exact h.bottom
      · exact h.placement
      · exact h.slot
      · rw [SlotStack.height_down, hdown, hs]

/-- The calls return what the stack of slots returns. -/
lemma Slots.run (h : Slots b s t) (hpos : 0 < t.height ∨ calls.head? ≠ some .pop)
    (h32 : ∀ f ∈ pushes calls, f < 4294967296)
    (hfit : b + 4 * (t.slots.length + (pushes calls).length) ≤ 4294967296) :
    frameRun alloc s calls = .ok ((t.run calls).map popResult) := by
  induction calls generalizing s t with
  | nil => rfl
  | cons call calls ih =>
    cases call with
    | push addr =>
      have hlen : (t.push addr).slots.length = t.slots.length + 1 := by simp
      simp only [pushes, List.length_cons] at hfit
      rw [frameRun, pushFrame_eq h.init]
      refine ih (h.push (h32 addr (by simp [pushes])) (by omega)) (.inl ?_) (fun f hf => ?_) ?_
      · exact Nat.succ_pos _
      · exact h32 f (List.mem_cons_of_mem _ hf)
      · rw [hlen]
        omega
    | pop =>
      have hpos : 0 < t.height := hpos.resolve_right (by simp)
      simp only [pushes] at hfit
      obtain ⟨hret, h'⟩ := h.pop hpos (by omega)
      have hrun := ih h' (.inl (t.height_pop hpos)) h32 (by rw [t.slots_pop]; exact hfit)
      rw [SlotStack.run, List.map_cons, ← hret]
      show (frameRun alloc (popFrame s).1 calls >>= fun rets => .ok ((popFrame s).2 :: rets)) = _
      rw [hrun, ok_bind]

/-- The stack of slots after pushes on an empty one. -/
lemma Slots.places (h : Slots b s ⟨[], 0, le_refl _⟩) {fs : List Nat}
    (h32 : ∀ f ∈ fs, f < 4294967296) (hfit : b + 4 * fs.length ≤ 4294967296) :
    Slots b (fs.foldl State.place s) ⟨fs, fs.length, le_refl _⟩ := by
  induction fs using List.reverseRecOn with
  | nil => exact h
  | append_singleton fs f ih =>
    rw [List.length_append, List.length_singleton] at hfit
    have hs : Slots b ((fs.foldl State.place s).place f) _ :=
      (ih (fun f hf => h32 f (by simp [hf])) (by omega)).push (h32 f (by simp)) (by simpa using hfit)
    rw [List.foldl_concat]
    simpa [SlotStack.push] using hs

/-- After `init_pmm` the slots above the kernel hold the frames that it pushed. -/
lemma initPmm_slots {n kernEnd : Nat} {mbi : MultibootInfo} {w : Walk} (hk : s.kheapInit = false)
    (hr : initPmm alloc n s mbi kernEnd = .ok w) (hkern : kernEnd < 4294967296)
    (hfit : kernEnd + 4 * w.pushed.length ≤ 4294967296) :
    Slots kernEnd w.st ⟨w.pushed, w.pushed.length, le_refl _⟩ ∧ ∀ f ∈ w.pushed, f < 0xFFFFFFFF := by
  have hstart : Slots kernEnd { s with placementAddr := kernEnd, bottom := kernEnd }
      ⟨[], 0, le_refl _⟩ :=
    ⟨hk, rfl, (u32_eq hkern).symm, by simp, fun h => absurd h (by simp)⟩
  obtain ⟨hst, hlt⟩ : w.st = w.pushed.foldl State.place
      { s with placementAddr := kernEnd, bottom := kernEnd } ∧ ∀ f ∈ w.pushed, f < 0xFFFFFFFF := by
    rw [initPmm] at hr
    split_ifs at hr
    · obtain ⟨fs, hst, hpushed, hfs⟩ := mmapLoop_places hk hr
      rw [List.nil_append] at hpushed
      exact ⟨by rw [hst, hpushed], by rwa [hpushed]⟩
    · cases hr
      exact ⟨rfl, by simp⟩
  refine ⟨?_, hlt⟩
  rw [hst]
  exact hstart.places (fun f hf => lt_trans (hlt f hf) (by decide)) hfit

end

/-- The results of `pop_frame` are those of a stack that starts with the frames of `init_pmm`. -/
def Stacked (alloc : State → Nat → Except Fault (State × Nat)) (w : Walk)
    (calls : List (StackCall Nat)) : Prop :=
  frameRun alloc w.st calls = .ok ((stackRun w.pushed.reverse calls).map popResult)

/-- A word as a result of `pop_frame`. -/
def ofWord (f : Nat) : Option Nat := if f = 0xFFFFFFFF then none else some f

/-- Results of `pop_frame` that are not frames at the end of the address space are told apart. -/
lemma map_popResult_inj {l l' : List (Option Nat)} (hl : ∀ f, some f ∈ l → f ≠ 0xFFFFFFFF)
    (hl' : ∀ f, some f ∈ l' → f ≠ 0xFFFFFFFF) (h : l.map popResult = l'.map popResult) : l = l' := by
  have hback : ∀ l : List (Option Nat), (∀ f, some f ∈ l → f ≠ 0xFFFFFFFF) →
      (l.map popResult).map ofWord = l := by
    intro l hl
    rw [List.map_map]
    refine (List.map_congr_left fun o ho => ?_).trans (List.map_id l)
    cases o with
    | none => rfl
    | some f => exact if_neg (hl f ho)
  rw [← hback l hl, h, hback l' hl']

section
variable (alloc : State → Nat → Except Fault (State × Nat)) (s : State) (mbi : MultibootInfo)
  (kernEnd n : Nat) (w : Walk) (calls : List (StackCall Nat))

/-- The frame stack that `init_pmm` leaves works as a stack under the calls that are covered, and,
where no frame is pushed that is on the stack already, under no others. -/
theorem initPmm_stacked (hk : s.kheapInit = false) (hr : initPmm alloc n s mbi kernEnd = .ok w)
    (hkern : kernEnd < 4294967296) (h32 : ∀ f ∈ pushes calls, f < 4294967296)
    (hfit : kernEnd + 4 * (w.pushed.length + (pushes calls).length) ≤ 4294967296) :
    (Covered w.pushed.length false false calls → Stacked alloc w calls) ∧
    (w.pushed ≠ [] → w.pushed.Nodup → FreshPushes w.pushed.reverse calls →
      (∀ f ∈ pushes calls, f % 0x1000 = 0) → Stacked alloc w calls →
        Covered w.pushed.length false false calls) := by
  obtain ⟨hslots, hlt⟩ := initPmm_slots hk hr hkern (by omega)
  have hagree := SlotStack.agrees_of_pushes w.pushed
  rw [← List.length_reverse]
  constructor
  · intro hc
    rw [Stacked, hslots.run ?_ h32 hfit, hagree.run_eq hc]
    -- with no frame pushed yet the first call is no pop
    rcases Nat.eq_zero_or_pos w.pushed.length with h0 | hpos
    · right
      rintro hpop
      cases calls with
      | nil => cases hpop
      | cons call calls =>
        cases call with
        | push f => cases hpop
        | pop => exact absurd hc.1 (by simp [h0])
    · exact .inl hpos
  · intro hne hnd hfresh hpage hst
    have hpos : 0 < w.pushed.length := List.length_pos_iff.mpr hne
    have hword : ∀ f, f ∈ w.pushed ∨ f ∈ pushes calls → f ≠ 0xFFFFFFFF := by
      rintro f (hf | hf)
      · exact (hlt f hf).ne
      · have := hpage f hf
        omega
    rw [Stacked, hslots.run (.inl hpos) h32 hfit] at hst
    refine (SlotStack.stale_of_pushes hne hnd).covered hagree hfresh ?_
    refine map_popResult_inj (fun f hf => hword f (SlotStack.mem_of_run hf)) (fun f hf => ?_)
      (Except.ok.inj hst)
    exact hword f ((mem_of_stackRun hf).imp_left List.mem_reverse.mp)

end

/-- The walk over the map of two regions pushes three frames of the second one. -/
lemma twoRegions_walk : ∃ w, initPmm V1.alloc 3 twoRegions twoRegionsInfo 0x180000 = .ok w ∧
    w.pushed = [0x200000, 0x201000, 0x202000] ∧
    frameRun V1.alloc w.st [.pop, .pop, .push 0x201000, .pop, .pop] =
      .ok [0x202000, 0x201000, 0x201000, 0x202000] := by
  cases hr : initPmm V1.alloc 3 twoRegions twoRegionsInfo 0x180000 with
  | error e => cases hr
  | ok w =>
    refine ⟨w, rfl, ?_⟩
    have hrun : (initPmm V1.alloc 3 twoRegions twoRegionsInfo 0x180000).map
        (fun w => (w.pushed, frameRun V1.alloc w.st [.pop, .pop, .push 0x201000, .pop, .pop])) =
      .ok ([0x200000, 0x201000, 0x202000], .ok [0x202000, 0x201000, 0x201000, 0x202000]) := by rfl
    rw [hr] at hrun
    injection hrun with hrun
    exact Prod.mk.inj hrun

/-- A frame that is given back and taken again. -/
theorem initPmm_stacked_once : ∃ w,
    initPmm V1.alloc 3 twoRegions twoRegionsInfo 0x180000 = .ok w ∧
    Covered w.pushed.length false false [.pop, .push 0x202000, .pop] ∧
    Stacked V1.alloc w [.pop, .push 0x202000, .pop] := by
  obtain ⟨w, hr, hpushed, -⟩ := twoRegions_walk
  have hc : Covered w.pushed.length false false [.pop, .push 0x202000, .pop] := by
    rw [hpushed]
    simp [Covered]
  have hst := initPmm_stacked V1.alloc twoRegions twoRegionsInfo 0x180000 3 w
    [.pop, .push 0x202000, .pop] rfl hr (by decide) (by simp [pushes]) (by rw [hpushed]; decide)
  exact ⟨w, hr, hc, hst.1 hc⟩

/-- Two frames are taken, one of them is given back, and the third and the fourth `pop_frame` return
both of them again: the last one hands out a frame that is in use. -/
theorem initPmm_not_stacked : ∃ w,
    initPmm V1.alloc 3 twoRegions twoRegionsInfo 0x180000 = .ok w ∧
    w.pushed = [0x200000, 0x201000, 0x202000] ∧
    frameRun V1.alloc w.st [.pop, .pop, .push 0x201000, .pop, .pop] =
      .ok [0x202000, 0x201000, 0x201000, 0x202000] ∧
    ¬ Stacked V1.alloc w [.pop, .pop, .push 0x201000, .pop, .pop] := by
  obtain ⟨w, hr, hpushed, hrun⟩ := twoRegions_walk
  refine ⟨w, hr, hpushed, hrun, fun hst => ?_⟩
  rw [Stacked, hrun, hpushed] at hst
  simp [stackRun, popResult] at hst

end ToeS.V1
