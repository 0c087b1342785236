import ToeS.Kheap.Alloc
import ToeS.Lib.Run

/-!
# Runs of the kernel heap

The heap as a system (`Sys`): a caller allocates, frees a pointer it holds, or stores a byte into a
payload it holds. `Legal` is what the callers of `kern/mm/kheap.c` are trusted with; it is stated on
the heap itself, by the walk over the blocks (`Walk`). The invariant of runs is `Pic`: the heap is
represented by a list of blocks, and the pointers held are the payloads of the live ones.
-/

namespace ToeS.Kheap
open Lib

/-! ## The system -/

/-- The heap and the pointers that have been handed out and not freed. -/
structure Sys where
  heap : Heap
  live : List Nat

/-- What the owners of pointers can do. -/
inductive Op where
  | alloc (sz : Nat)
  | free (p : Nat)
  | store (p off : Nat) (v : UInt8)

/-- The bytes at a pointer that its owner may use: from the `next` field to the footer. -/
def payloadSz (h : Heap) (p : Nat) : Nat := h.size (p - offset) + 8

/-- Walking from `kheap->start` by size and overhead visits the headers `as` and ends exactly at
`kheap->end`. -/
def Walk (h : Heap) (as : List Nat) : Prop :=
  Tiles id (fun a => a + h.size a + blckOverhead) h.start as h.end_

/-- Which calls a caller may make: allocations that some free block is large enough for, releases of
pointers that are live, and stores into live payloads. -/
def Legal (s : Sys) : Op → Prop
  | .alloc sz => ∃ as, Walk s.heap as ∧ ∃ a ∈ as, a + offset ∉ s.live ∧ sz ≤ s.heap.size a
  | .free p => p ∈ s.live
  | .store p off _ => p ∈ s.live ∧ off < payloadSz s.heap p

/-- The block at `p` is the first of the heap or not the last, so that `kheap_free` has no reason to
look behind the heap. -/
def Enclosed (h : Heap) (p : Nat) : Prop :=
  p - offset = h.start ∨ p - offset + h.size (p - offset) + blckOverhead ≠ h.end_

/-- No release looks at a byte behind the heap that reads as a hole. -/
def Fenced (s : Sys) : Op → Prop
  | .free p => Enclosed s.heap p ∨ s.heap.mem kheapEnd = 0
  | _ => True

/-- One call. -/
def step (s : Sys) : Op → Except Fault Sys
  | .alloc sz => do
    let (p, h) ← kheapAlloc s.heap sz
    return ⟨h, p :: s.live⟩
  | .free p => do
    let h ← kheapFree s.heap p
    return ⟨h, s.live.erase p⟩
  | .store p off v => .ok { s with heap.mem := writeByte s.heap.mem (p + off) v }

/-- An allocation adds its payload to those that are live. -/
lemma step_alloc {s : Sys} {sz p : Nat} {h : Heap} (hrun : kheapAlloc s.heap sz = .ok (p, h)) :
    step s (.alloc sz) = .ok ⟨h, p :: s.live⟩ := by
  show (kheapAlloc s.heap sz >>= fun x => pure (⟨x.2, x.1 :: s.live⟩ : Sys)) = _
  rw [hrun]
  rfl

/-- A release takes its payload from those that are live. -/
lemma step_free {s : Sys} {p : Nat} {h : Heap} (hrun : kheapFree s.heap p = .ok h) :
    step s (.free p) = .ok ⟨h, s.live.erase p⟩ := by
  show (kheapFree s.heap p >>= fun h => pure (⟨h, s.live.erase p⟩ : Sys)) = _
  rw [hrun]
  rfl

/-- The initialised heap, in memory `m`. The bin heads start out `NULL`. -/
def boot (m : Mem) : Except Fault Sys := do
  let h ← kheapInit (kheapPreInit m fun _ => 0)
  return ⟨h, []⟩

/-- The calls `ops` on the initialised heap. -/
def runFrom (m : Mem) (ops : List Op) : Except Fault Sys := do
  let s ← boot m
  exec step s ops

/-- Every call of `ops` is legal when its turn comes. -/
def LegalFrom (m : Mem) (ops : List Op) : Prop := ∀ s, boot m = .ok s → LegalRun step Legal s ops

/-! ## Initialisation -/

/-- The block `kheap_init` creates. -/
def wholeHeap : Blk := ⟨kheapStart, kheapEnd - kheapStart - blckOverhead, false⟩

/-- The bins that `kheap_init` leaves. -/
def initBins : Fin binCnt → List Nat :=
  putIn (sizeIn [wholeHeap]) (getBinIndex wholeHeap.size) wholeHeap.addr fun _ => []

/-- `kheap_init` leaves one free block, and writes inside the heap only. -/
lemma kheapInit_spec (m : Mem) :
    ∃ h, kheapInit (kheapPreInit m fun _ => 0) = .ok h ∧ Rep h [wholeHeap] initBins ∧
      SameOff (Bytes kheapStart kheapEnd) m h.mem := by
  obtain ⟨b, hb⟩ : ∃ b : Blk, b = { wholeHeap with live := true } := ⟨_, rfl⟩
  have ba : b.addr = 3489660928 := by rw [hb]; rfl
  have bs : b.size = 1048556 := by rw [hb]; rfl
  have bstop : b.stop = 3490709504 := by unfold Blk.stop; omega
  have bl : b.live = true := by rw [hb]
  obtain ⟨h₀, eh₀⟩ : ∃ h₀, h₀ = kheapPreInit m fun _ => 0 := ⟨_, rfl⟩
  have hbins₀ : ∀ i, h₀.bins i = 0 := fun i => by rw [eh₀]; rfl
  obtain ⟨h₁, eh₁⟩ : ∃ h₁, h₁ = ((h₀.setSize b.addr b.size).setNext b.addr 0).setPrev b.addr 0 :=
    ⟨_, rfl⟩
  have hS : Spread [b.addr] := ⟨by simp [ba], by simp [Apart]⟩
  have e₁ : Edit (Bytes b.addr b.stop) h₀ h₁ := by
    have w₁ : ∀ x, Bytes (b.addr + 4) (b.addr + 8) x → Bytes b.addr b.stop x := by
      unfold Bytes; omega
    have w₂ : ∀ x, LinkOf [b.addr] x → Bytes b.addr b.stop x := by
      rintro x ⟨c, hc, hx⟩
      obtain rfl := List.mem_singleton.mp hc
      unfold Bytes at *
      omega
    rw [eh₁]
    exact ((Edit.setSize (by omega)).mono w₁).trans
      (((Edit.setNext List.mem_cons_self hS).mono w₂).trans
        ((Edit.setPrev List.mem_cons_self hS).mono w₂))
  have s₁ : h₁.size b.addr = b.size := by
    have e : Edit (LinkOf [b.addr]) (h₀.setSize b.addr b.size) h₁ := by
      rw [eh₁]
      exact (Edit.setNext List.mem_cons_self hS).trans (Edit.setPrev List.mem_cons_self hS)
    rw [e.size (by omega), size_setSize (by omega) (by omega)]
    rintro x hx ⟨c, hc, hx'⟩
    obtain rfl := List.mem_singleton.mp hc
    unfold Bytes at *
    omega
  obtain ⟨h₂, eh₂⟩ : ∃ h₂, h₂ = createFoot h₁ b.addr := ⟨_, rfl⟩
  obtain ⟨m₂, e₂⟩ : b.InMem h₂ ∧ Edit (Bytes b.foot b.stop) h₁ h₂ :=
    eh₂ ▸ createFoot_spec s₁ (by omega)
  have hbins₂ : ∀ i, h₂.bins i = 0 := fun i => by
    rw [eh₂, eh₁]
    exact hbins₀ i
  have R : Rep h₂ ([] ++ b :: []) fun _ => [] := by
    refine ⟨?_, ?_, ⟨ba, bstop⟩, ?_, fun i => ⟨hbins₂ i, trivial⟩, fun i a => ?_, fun i => .nil⟩
    · rw [e₂.start, e₁.start, eh₀]
      rfl
    · rw [e₂.end_, e₁.end_, eh₀]
      rfl
    · simpa using m₂
    · unfold FreeAt
      simp [bl]
  obtain ⟨h₃, L, hrun, R₃, e₃, hL⟩ := R.add bl
  have hL' : initBins = L := by
    rw [hL, hb]
    exact putIn_congr rfl fun a ha => by cases ha
  refine ⟨h₃, ?_, hL' ▸ ?_, ?_⟩
  · rw [← hrun, ← m₂.size, eh₂, eh₁, ba, bs]
    rw [← eh₀]
    rfl
  · have : { b with live := false } = wholeHeap := by rw [hb]; rfl
    rwa [this] at R₃
  · have hw : ∀ x, Bytes b.foot b.stop x → Bytes b.addr b.stop x := by
      unfold Blk.foot Bytes
      omega
    have hw' : ∀ x, Bytes (b.addr + 8) (b.addr + 16) x ∨ Links (fun _ => []) x →
        Bytes b.addr b.stop x := by
      rintro x (hx | ⟨i, a, ha, -⟩)
      · unfold Bytes at *
        omega
      · cases ha
    have e := (e₁.trans (e₂.mono hw)).trans (e₃.mono hw')
    rw [kheapStart_eq, kheapEnd_eq, ← ba, ← bstop]
    have hmem : h₀.mem = m := by rw [eh₀]; rfl
    exact hmem ▸ e.mem

/-! ## One call -/

/-- The blocks `bs` and the bins `L` are what the heap holds, and the pointers held are the payloads
of the live blocks. -/
structure Pic (s : Sys) (bs : List Blk) (L : Fin binCnt → List Nat) : Prop where
  rep : Rep s.heap bs L
  live : ∀ p, p ∈ s.live ↔ ∃ b ∈ bs, b.live = true ∧ p = b.addr + offset
  nodup : s.live.Nodup

/-- The blocks are those a walk over the heap comes by. -/
lemma Rep.walk {h : Heap} {bs : List Blk} {L : Fin binCnt → List Nat} (R : Rep h bs L) :
    Walk h (bs.map Blk.addr) := by
  rw [Walk, R.start, R.end_]
  refine (tiles_map _ Blk.addr Blk.stop fun b hb => ?_).mpr R.tiles
  rw [(R.inMem b hb).size]
  rfl

/-- There is one such walk. -/
lemma walk_unique {h : Heap} {as as' : List Nat} (hw : Walk h as) (hw' : Walk h as') : as = as' :=
  hw.unique (fun a => by rw [blckOverhead_eq]; omega) hw'

namespace Pic
variable {s : Sys} {bs : List Blk} {L : Fin binCnt → List Nat} {b : Blk} {p sz : Nat}

/-- A block is live when its payload is. -/
lemma live_iff (P : Pic s bs L) (hb : b ∈ bs) : b.addr + offset ∈ s.live ↔ b.live = true := by
  rw [P.live]
  constructor
  · rintro ⟨c, hc, hl, e⟩
    rwa [P.rep.eq_of_addr hb hc (Nat.add_right_cancel e)]
  · intro hl
    exact ⟨b, hb, hl, rfl⟩

/-- An allocation is legal when some free block is large enough. -/
lemma legal_alloc (P : Pic s bs L) :
    Legal s (.alloc sz) ↔ ∃ b ∈ bs, b.live = false ∧ sz ≤ b.size := by
  constructor
  · rintro ⟨as, hw, a, ha, hl, hsz⟩
    obtain rfl := walk_unique hw P.rep.walk
    obtain ⟨b, hb, rfl⟩ := List.mem_map.mp ha
    rw [P.live_iff hb, Bool.not_eq_true] at hl
    rw [(P.rep.inMem b hb).size] at hsz
    exact ⟨b, hb, hl, hsz⟩
  · rintro ⟨b, hb, hl, hsz⟩
    refine ⟨_, P.rep.walk, b.addr, List.mem_map_of_mem hb, ?_, ?_⟩
    · rw [P.live_iff hb, hl]
      decide
    · rwa [(P.rep.inMem b hb).size]

/-- The bytes of a live block are in no free one. -/
lemma not_freeIn (P : Pic s bs L) (hb : b ∈ bs) (hl : b.live = true) {x : Nat} (hx : b.Inside x) :
    ¬ FreeIn bs x := by
  rintro ⟨c, hc, hf, hx'⟩
  have := P.rep.apart hb hc
  unfold Blk.Inside Bytes at *
  rcases this with rfl | h | h
  · rw [hl] at hf
    cases hf
  all_goals omega

/-- A payload has the size of its block and the bytes of the links. -/
lemma payloadSz_eq (P : Pic s bs L) (hb : b ∈ bs) :
    payloadSz s.heap (b.addr + offset) = b.size + 8 := by
  rw [payloadSz, Nat.add_sub_cancel, (P.rep.inMem b hb).size]

/-- The last block is the one that ends where the heap does. -/
lemma enclosed_iff {pre post : List Blk} (P : Pic s (pre ++ b :: post) L) :
    Enclosed s.heap (b.addr + offset) ↔ pre = [] ∨ post ≠ [] := by
  have hb : b ∈ pre ++ b :: post := by simp
  have ht := (tiles_middle.mp P.rep.tiles).2
  rw [Enclosed, Nat.add_sub_cancel, P.rep.start_iff, (P.rep.inMem b hb).size, P.rep.end_]
  refine or_congr_right (not_congr ⟨fun h => ?_, fun h => ?_⟩)
  · cases post with
    | nil => rfl
    | cons n post =>
      have h : b.stop = kheapEnd := h
      have hn := ht.bounds Blk.addr_lt_stop (b := n) (by simp)
      have := n.addr_lt_stop
      omega
  · subst h
    exact ht

end Pic

/-- An allocated block is at the old address; what is behind it is free. -/
lemma allocate_cons (f : Blk) (sz : Nat) :
    ∃ d r, allocate f sz = d :: r ∧ d.addr = f.addr ∧ d.live = true ∧ ∀ c ∈ r, c.live = false := by
  unfold allocate
  split
  · exact ⟨_, _, rfl, rfl, rfl, by simp⟩
  · exact ⟨_, _, rfl, rfl, rfl, by simp⟩

/-- The hole bytes after an allocation, also the first one. -/
lemma holes_allocate {h h' : Heap} {pre post : List Blk} {f : Blk} {sz : Nat}
    (hh : pre ++ f :: post = [wholeHeap] ∨ Holes h (pre ++ f :: post))
    (ho : ∀ c ∈ pre ++ post, h'.hole c.addr = h.hole c.addr) (hh' : Holes h' (allocate f sz)) :
    Holes h' (pre ++ allocate f sz ++ post) := by
  intro c hc
  by_cases hca : c ∈ allocate f sz
  · exact hh' c hca
  · have hc' : c ∈ pre ++ post := by
      simp only [List.mem_append] at hc ⊢
      tauto
    rcases hh with heq | hh
    · have hlen := congrArg List.length heq
      simp only [List.length_append, List.length_cons, List.length_nil] at hlen
      have := List.length_pos_of_mem hc'
      rw [List.length_append] at this
      omega
    · rw [ho c hc']
      exact hh c (mem_middle hc')

/-- A release keeps the other live blocks and adds no live one. -/
lemma mem_release {pre post : List Blk} {b c : Blk} (hl : c.live = true) :
    c ∈ release pre b post ↔ c ∈ pre ++ post := by
  have hprev : c ∈ (joinPrev pre b).1 ↔ c ∈ pre := by
    rcases List.eq_nil_or_concat pre with rfl | ⟨pre, p, rfl⟩
    · rfl
    · rw [List.concat_eq_append]
      cases hp : p.live with
      | true => simp [joinPrev, hp]
      | false =>
        have : c ≠ p := fun e => by rw [e, hp] at hl; cases hl
        simp [joinPrev, hp, this]
  have hnext : ∀ d, c ∈ (joinNext d post).2 ↔ c ∈ post := by
    intro d
    cases post with
    | nil => rfl
    | cons n post =>
      cases hn : n.live with
      | true => simp [joinNext, hn]
      | false =>
        have : c ≠ n := fun e => by rw [e, hn] at hl; cases hl
        simp [joinNext, hn, this]
  have hne : ∀ d : Blk, c ≠ { d with live := false } := fun d e => by
    rw [e] at hl
    cases hl
  unfold release
  split
  · subst pre
    simp [hne]
  · simp [hprev, hnext, hne]

namespace Pic
variable {s : Sys} {bs : List Blk} {L : Fin binCnt → List Nat} {b : Blk} {p sz : Nat}

/-- `kheap_alloc` as a step of the system. -/
lemma alloc (P : Pic s bs L) (hl : Legal s (.alloc sz)) :
    ∃ pre f post h, bs = pre ++ f :: post ∧ BestFit bs L sz f ∧
      step s (.alloc sz) = .ok ⟨h, (f.addr + offset) :: s.live⟩ ∧
      Pic ⟨h, (f.addr + offset) :: s.live⟩ (pre ++ allocate f sz ++ post)
        (allocateBins bs f sz L) ∧
      Edit (FreeIn bs) s.heap h ∧ (∀ c ∈ pre ++ post, h.hole c.addr = s.heap.hole c.addr) ∧
      Holes h (allocate f sz) := by
  obtain ⟨pre, f, post, h, rfl, hbest, hrun, R, e, ho, hh, -⟩ :=
    kheapAlloc_spec P.rep (P.legal_alloc.mp hl)
  obtain ⟨d, r, ha, hda, hd, hr⟩ := allocate_cons f sz
  have hfm := hbest.mem
  have hf := hbest.free
  have hmem : ∀ c : Blk, c.live = true → (c ∈ pre ++ allocate f sz ++ post ↔
      c = d ∨ c ∈ pre ++ f :: post) := by
    intro c hc
    have hcr : c ∉ r := fun h => by rw [hr c h] at hc; cases hc
    have hcf : c ≠ f := fun e => by rw [e, hf] at hc; cases hc
    rw [ha]
    simp [hcr, hcf]
    tauto
  refine ⟨pre, f, post, h, rfl, hbest, ?_, ⟨R, fun q => ?_, List.nodup_cons.mpr ⟨?_, P.nodup⟩⟩,
    e.mono ?_, ho, hh⟩
  · exact step_alloc hrun
  · rw [List.mem_cons, P.live]
    constructor
    · rintro (rfl | ⟨c, hc, hl, rfl⟩)
      · exact ⟨d, (hmem d hd).mpr (.inl rfl), hd, by rw [hda]⟩
      · exact ⟨c, (hmem c hl).mpr (.inr hc), hl, rfl⟩
    · rintro ⟨c, hc, hl, rfl⟩
      rcases (hmem c hl).mp hc with rfl | hc
      · exact .inl (by rw [hda])
      · exact .inr ⟨c, hc, hl, rfl⟩
  · rw [P.live_iff hfm, hf]
    decide
  · rintro x (hx | hx)
    · exact ⟨f, hfm, hf, hx⟩
    · exact P.rep.links_freeIn hx

/-- `kheap_free` as a step of the system. -/
lemma free (P : Pic s bs L) (hh : Holes s.heap bs) (hl : p ∈ s.live) (hf : Fenced s (.free p)) :
    ∃ pre b post h, bs = pre ++ b :: post ∧ b.live = true ∧ p = b.addr + offset ∧
      step s (.free p) = .ok ⟨h, s.live.erase p⟩ ∧
      Pic ⟨h, s.live.erase p⟩ (release pre b post) (releaseBins pre b post L) ∧
      Holes h (release pre b post) ∧ Edit (Room pre b post) s.heap h := by
  obtain ⟨b, hb, hbl, rfl⟩ := (P.live p).mp hl
  obtain ⟨pre, post, rfl⟩ := List.append_of_mem hb
  have hend : pre = [] ∨ post ≠ [] ∨ s.heap.mem kheapEnd = 0 :=
    or_assoc.mp (hf.imp_left P.enclosed_iff.mp)
  obtain ⟨h, hrun, R, hh', e⟩ := kheapFree_spec P.rep hbl hh hend
  refine ⟨pre, b, post, h, rfl, hbl, rfl, ?_, ⟨R, fun q => ?_, P.nodup.erase _⟩, hh', e⟩
  · exact step_free hrun
  · rw [P.nodup.mem_erase_iff, P.live]
    constructor
    · rintro ⟨hne, c, hc, hcl, rfl⟩
      exact ⟨c, (mem_release hcl).mpr (mem_of_middle hc fun e => hne (by rw [e])), hcl, rfl⟩
    · rintro ⟨c, hc, hcl, rfl⟩
      have hc' := (mem_release hcl).mp hc
      refine ⟨fun e => ?_, c, mem_middle hc', hcl, rfl⟩
      have := P.rep.around hc'
      have := c.addr_lt_stop
      have := b.addr_lt_stop
      omega

/-- A store into a live payload changes no block and no bin. -/
lemma store {off : Nat} {v : UInt8} (P : Pic s bs L) (hl : Legal s (.store p off v)) :
    ∃ h, step s (.store p off v) = .ok ⟨h, s.live⟩ ∧ Pic ⟨h, s.live⟩ bs L ∧
      (Holes s.heap bs → Holes h bs) ∧ Edit (Bytes kheapStart kheapEnd) s.heap h := by
  obtain ⟨hp, hoff⟩ := hl
  obtain ⟨b, hb, hbl, rfl⟩ := (P.live p).mp hp
  rw [P.payloadSz_eq hb] at hoff
  have hbb := P.rep.bounds hb
  have hin : Bytes (b.addr + 8) b.foot (b.addr + offset + off) := by
    unfold Bytes Blk.foot offset
    omega
  have hbx : b.addr + offset + off < 4294967296 := by
    unfold Bytes Blk.foot Blk.stop at *
    omega
  obtain ⟨h, eh⟩ : ∃ h : Heap, h =
      { s.heap with mem := writeByte s.heap.mem (b.addr + offset + off) v } := ⟨_, rfl⟩
  have e : Edit (Bytes (b.addr + 8) b.foot) s.heap h := by
    rw [eh]
    refine ⟨SameOff.mono (SameOff.writeByte hbx) fun x hx => ?_, rfl, rfl⟩
    unfold Bytes at *
    omega
  have hfield : ∀ c ∈ bs, ∀ x, c.Fields x ∨ x = c.addr → ¬ Bytes (b.addr + 8) b.foot x := by
    intro c hc x hx hw
    have := P.rep.apart hb hc
    unfold Blk.Fields Blk.foot Blk.stop Bytes at *
    rcases this with rfl | h | h <;> omega
  refine ⟨h, by rw [eh]; rfl, ⟨?_, P.live, P.nodup⟩, fun hh c hc => ?_, e.mono fun x hx => ?_⟩
  · refine P.rep.edit e (by rw [eh]) (fun c hc x hx => hfield c hc x (.inl hx)) ?_
    rintro x ⟨i, a, ha, hx⟩ hw
    obtain ⟨c, hc, rfl, hf, -⟩ := (P.rep.mem_iff i a).mp ha
    have := P.rep.apart hb hc
    unfold Blk.foot Blk.stop Bytes at *
    rcases this with rfl | h | h
    · rw [hbl] at hf
      cases hf
    all_goals omega
  · have := P.rep.bounds hc
    have := c.addr_lt_stop
    rw [e.hole (by omega) (hfield c hc _ (.inr rfl))]
    exact hh c hc
  · rw [kheapStart_eq, kheapEnd_eq]
    unfold Blk.foot Blk.stop Bytes at *
    omega

end Pic

/-! ## The abstract heap -/

/-- What the calls do to the list of blocks. -/
inductive Moves : List Blk → Op → List Blk → Prop
  | alloc {pre f post sz} (hf : f.live = false) (hsz : sz ≤ f.size) :
    Moves (pre ++ f :: post) (.alloc sz) (pre ++ allocate f sz ++ post)
  | free {pre b post} (hb : b.live = true) :
    Moves (pre ++ b :: post) (.free (b.addr + offset)) (release pre b post)
  | store {bs p off v} : Moves bs (.store p off v) bs

/-- The step is made by the allocator, not by the owner of a payload. -/
def Op.ByHeap : Op → Prop
  | .store _ _ _ => False
  | _ => True

/-- The payload of a pointer that stays live has the same bytes afterwards. -/
def Keeps (s s' : Sys) : Prop :=
  ∀ p ∈ s.live, p ∈ s'.live → payloadSz s'.heap p = payloadSz s.heap p ∧
    ∀ x, Bytes p (p + payloadSz s.heap p) x → s'.heap.mem x = s.heap.mem x

namespace Pic
variable {s s' : Sys} {bs bs' : List Blk} {L L' : Fin binCnt → List Nat}

/-- Blocks that are untouched keep their payloads. -/
lemma keeps {W : Nat → Prop} (P : Pic s bs L) (P' : Pic s' bs' L') (e : Edit W s.heap s'.heap)
    (hW : ∀ b ∈ bs, b.live = true → b.addr + offset ∈ s'.live →
      b ∈ bs' ∧ ∀ x, b.Inside x → ¬ W x) : Keeps s s' := by
  intro p hp hp'
  obtain ⟨b, hb, hl, rfl⟩ := (P.live p).mp hp
  obtain ⟨hb', hoff⟩ := hW b hb hl hp'
  rw [P.payloadSz_eq hb, P'.payloadSz_eq hb']
  refine ⟨rfl, fun x hx => e.mem x (hoff x ?_)⟩
  unfold Bytes offset at hx
  unfold Blk.Inside Blk.stop Bytes
  omega

/-- The heap refines the abstract one: a legal call returns, does to the blocks what `Moves` says,
and leaves the payloads of other live blocks and the byte behind the heap alone. At the very start
hole bytes say nothing. -/
theorem step (P : Pic s bs L) (hh : bs = [wholeHeap] ∨ Holes s.heap bs) {op : Op}
    (hl : Legal s op) (hf : Fenced s op) :
    ∃ s' bs' L', step s op = .ok s' ∧ Moves bs op bs' ∧ Pic s' bs' L' ∧ Holes s'.heap bs' ∧
      (op.ByHeap → Keeps s s') ∧ s'.heap.mem kheapEnd = s.heap.mem kheapEnd := by
  -- where something is live, hole bytes are in order
  have hholes : ∀ p ∈ s.live, Holes s.heap bs := by
    intro p hp
    rcases hh with rfl | hh
    · obtain ⟨b, hb, hl, -⟩ := (P.live p).mp hp
      rw [List.mem_singleton.mp hb] at hl
      cases hl
    · exact hh
  cases op with
  | alloc sz =>
    obtain ⟨pre, f, post, h, rfl, hbest, hrun, P', e, ho, hh'⟩ := P.alloc hl
    have hf := hbest.free
    refine ⟨_, _, _, hrun, .alloc hf hbest.fits, P', ?_, fun _ => P.keeps P' e fun b hb hbl _ => ⟨?_, ?_⟩,
      e.mem _ P.rep.end_not_freeIn⟩
    · exact holes_allocate hh ho hh'
    · have hne : b ≠ f := fun e => by rw [e, hf] at hbl; cases hbl
      have := mem_of_middle hb hne
      simp only [List.mem_append] at this ⊢
      tauto
    · exact fun x => P.not_freeIn hb hbl
  | free p =>
    obtain ⟨pre, b, post, h, rfl, hb, rfl, hrun, P', hh', e⟩ := P.free (hholes p hl) hl hf
    refine ⟨_, _, _, hrun, .free hb, P', hh', fun _ => P.keeps P' e fun c hc hcl hc' => ?_,
      e.mem _ P.rep.end_not_room⟩
    have hne : c ≠ b := by
      rintro rfl
      exact P.nodup.not_mem_erase hc'
    have hcm := mem_of_middle hc hne
    refine ⟨(mem_release hcl).mpr hcm, ?_⟩
    rintro x hx (⟨d, hd, hdf, hx'⟩ | hx')
    · exact P.not_freeIn hc hcl hx ⟨d, mem_middle hd, hdf, hx'⟩
    · have := P.rep.around hcm
      unfold Blk.Inside Bytes at *
      omega
  | store p off v =>
    obtain ⟨h, hrun, P', hh', e⟩ := P.store hl
    exact ⟨_, _, L, hrun, .store, P', hh' (hholes p hl.1), fun h => h.elim,
      e.mem _ (by unfold Bytes; omega)⟩

end Pic

/-! ## Runs -/

/-- The state of the heap system from boot on, before and after the first allocation. -/
def Sound (s : Sys) : Prop := ∃ bs L, Pic s bs L ∧ (bs = [wholeHeap] ∨ Holes s.heap bs)

/-- And nothing behind the heap reads as a hole. -/
def Good (s : Sys) : Prop := Sound s ∧ s.heap.mem kheapEnd = 0

/-- The initialised heap is one free block. -/
lemma boot_spec (m : Mem) :
    ∃ s, boot m = .ok s ∧ s.live = [] ∧ Pic s [wholeHeap] initBins ∧
      s.heap.mem kheapEnd = m kheapEnd := by
  obtain ⟨h, hrun, R, e⟩ := kheapInit_spec m
  refine ⟨⟨h, []⟩, ?_, rfl, ⟨R, fun p => ?_, List.nodup_nil⟩, e _ (by unfold Bytes; omega)⟩
  · show (kheapInit (kheapPreInit m fun _ => 0) >>= fun h => pure (⟨h, []⟩ : Sys)) = _
    rw [hrun]
    rfl
  · simp [wholeHeap]

/-- A legal call that is fenced keeps the invariant and the byte behind the heap. -/
lemma sound_step {s : Sys} {op : Op} (hs : Sound s) (hl : Legal s op) (hf : Fenced s op) :
    ∃ s', step s op = .ok s' ∧ (∃ bs L, Pic s' bs L ∧ Holes s'.heap bs) ∧
      s'.heap.mem kheapEnd = s.heap.mem kheapEnd := by
  obtain ⟨bs, L, P, hh⟩ := hs
  obtain ⟨s', bs', L', hrun, -, P', hh', -, hend⟩ := P.step hh hl hf
  exact ⟨s', hrun, ⟨bs', L', P', hh'⟩, hend⟩

/-- With a 0 behind the heap every call is. -/
lemma fenced_of_end {s : Sys} {op : Op} (h : s.heap.mem kheapEnd = 0) : Fenced s op := by
  cases op with
  | free p => exact .inr h
  | _ => trivial

/-- Every release of `ops` is of the first block, or of one that is not the last, when its turn
comes. -/
def EnclosedFrom (m : Mem) (ops : List Op) : Prop :=
  ∀ s, boot m = .ok s →
    LegalRun step (fun s op => match op with | .free p => Enclosed s.heap p | _ => True) s ops

/-- The state of a run that started in memory `m`: sound, and the byte behind the heap is as it was. -/
def Kept (m : Mem) (s : Sys) : Prop := Sound s ∧ s.heap.mem kheapEnd = m kheapEnd

/-- A legal call that does not look at a hole behind the heap. -/
def Guarded (m : Mem) (s : Sys) (op : Op) : Prop := Legal s op ∧ (m kheapEnd = 0 ∨ Fenced s op)

/-- A guarded call is fenced. -/
lemma Kept.fenced {m : Mem} {s : Sys} {op : Op} (hs : Kept m s) (hw : Guarded m s op) : Fenced s op :=
  hw.2.elim (fun h => fenced_of_end (hs.2.trans h)) id

/-- Boot leaves one free block, and the byte behind the heap alone. -/
lemma boot_kept (m : Mem) :
    ∃ s, boot m = .ok s ∧ Kept m s ∧ s.live = [] ∧ Pic s [wholeHeap] initBins := by
  obtain ⟨s, hboot, hlive, P, hend⟩ := boot_spec m
  exact ⟨s, hboot, ⟨⟨_, _, P, .inl rfl⟩, hend⟩, hlive, P⟩

/-- The calls of a legal run stay within the heap, when nothing behind it reads as a hole or no release
looks there. -/
lemma LegalFrom.guarded {m : Mem} {ops : List Op} {s₀ : Sys} (hl : LegalFrom m ops)
    (hf : m kheapEnd = 0 ∨ EnclosedFrom m ops) (hboot : boot m = .ok s₀) :
    LegalRun step (Guarded m) s₀ ops := by
  refine (hl s₀ hboot).and ?_
  rcases hf with h | h
  · exact .of_forall fun _ _ => .inl h
  · refine (h s₀ hboot).imp fun s op he => .inr ?_
    cases op with
    | free p => exact .inl he
    | _ => trivial

/-- A legal run returns, in a sound state, when nothing behind the heap reads as a hole or no release
looks there. -/
theorem runFrom_sound {m : Mem} {ops : List Op} (hl : LegalFrom m ops)
    (hf : m kheapEnd = 0 ∨ EnclosedFrom m ops) :
    ∃ s, runFrom m ops = .ok s ∧ Sound s ∧ s.heap.mem kheapEnd = m kheapEnd ∧
      (ops ≠ [] → ∃ bs L, Pic s bs L ∧ Holes s.heap bs) := by
  obtain ⟨s₀, hboot, hk, -⟩ := boot_kept m
  have hrun : runFrom m ops = exec step s₀ ops := by
    show (boot m >>= fun s => exec Kheap.step s ops) = _
    rw [hboot]
    rfl
  obtain ⟨s, hex, ⟨hs, he⟩, hJ⟩ := exec_inv (I := Kept m)
    (J := fun s => (∃ bs L, Pic s bs L ∧ Holes s.heap bs) ∧ s.heap.mem kheapEnd = m kheapEnd)
    (fun s op hs hw => by
      obtain ⟨s', hrun, hJ, he'⟩ := sound_step hs.1 hw.1 (hs.fenced hw)
      exact ⟨s', hrun, hJ, he'.trans hs.2⟩)
    (fun _ ⟨⟨bs, L, P, hh⟩, he⟩ => ⟨⟨bs, L, P, .inr hh⟩, he⟩) hk (hl.guarded hf hboot)
  exact ⟨s, hrun.trans hex, hs, he, fun hne => (hJ hne).1⟩

/-- A legal run returns, in a good state. -/
theorem runFrom_spec {m : Mem} {ops : List Op} (hm : m kheapEnd = 0) (hl : LegalFrom m ops) :
    ∃ s, runFrom m ops = .ok s ∧ Good s ∧ (ops ≠ [] → ∃ bs L, Pic s bs L ∧ Holes s.heap bs) := by
  obtain ⟨s, hrun, hs, he, hh⟩ := runFrom_sound hl (.inl hm)
  exact ⟨s, hrun, ⟨hs, he.trans hm⟩, hh⟩

end ToeS.Kheap
