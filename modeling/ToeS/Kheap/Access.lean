import ToeS.Kheap.Defs
import ToeS.Lib.Traced

/-!
# What `kheap_free` touches

`kheap_free` of `kern/mm/kheap.c` once more, now with every byte of memory that it reads or writes,
in the order of the source. `heap_t` and the heads of the bins lie outside the heap by design and
are not logged. The traced functions compute what the plain ones do (`run_kheapFree`) and depend on
nothing but what they log (`local_kheapFree`).
-/

namespace ToeS.Kheap
open Lib Traced

/-- Heaps that agree on the bytes of `W`, on `heap_t` and on the bins. -/
structure Agree (W : Nat → Prop) (h h' : Heap) : Prop where
  mem : ∀ x, W x → h'.mem x = h.mem x
  start : h'.start = h.start
  end_ : h'.end_ = h.end_
  bins : h'.bins = h.bins

namespace Access

/-! ## Fields -/

/-- Traced code of the heap. -/
abbrev Code := Traced Fault Heap

/-- The bytes of the word at `a`. -/
def word (a : Nat) : List Nat := [u32 a, u32 (a + 1), u32 (a + 2), u32 (a + 3)]

def hole (blck : Nat) : Code UInt8 := load [u32 blck] fun h => h.hole blck
def size (blck : Nat) : Code Nat := load (word (blck + 4)) fun h => h.size blck
def next (blck : Nat) : Code Nat := load (word (blck + 8)) fun h => h.next blck
def prev (blck : Nat) : Code Nat := load (word (blck + 12)) fun h => h.prev blck
def header (foot : Nat) : Code Nat := load (word foot) fun h => h.header foot
def head (bin : Fin binCnt) : Code Nat := load [] fun h => h.bins bin
def start : Code Nat := load [] fun h => h.start

def setHole (blck : Nat) (v : UInt8) : Code Unit := store [u32 blck] fun h => h.setHole blck v
def setSize (blck v : Nat) : Code Unit := store (word (blck + 4)) fun h => h.setSize blck v
def setNext (blck v : Nat) : Code Unit := store (word (blck + 8)) fun h => h.setNext blck v
def setPrev (blck v : Nat) : Code Unit := store (word (blck + 12)) fun h => h.setPrev blck v
def setHeader (foot v : Nat) : Code Unit := store (word foot) fun h => h.setHeader foot v
def setHead (bin : Fin binCnt) (v : Nat) : Code Unit := store [] fun h => h.setHead bin v

/-! ## Functions of the source -/

/-- C `get_foot`. -/
def getFoot (blck : Nat) : Code Nat := do
  let size ← size blck
  return u32 (blck + blockSz + size)

/-- `blck->next = NULL; blck->prev = NULL;`. -/
def clearLinks (blck : Nat) : Code Unit := do
  setNext blck 0
  setPrev blck 0

/-- The loop of `add_block_sorted`. -/
def sortedPos (blck : Nat) : Nat → Nat → Nat → Code (Nat × Nat)
  | 0, _, _ => fail .diverges
  | n + 1, prev, temp =>
    if temp = 0 then return (prev, temp)
    else do
      let tempSz ← size temp
      let blckSz ← size blck
      if tempSz ≤ blckSz then do
        let next ← next temp
        sortedPos blck n temp next
      else return (prev, temp)

/-- The end of `add_block_sorted`. -/
def linkBetween (bin : Fin binCnt) (blck prev temp : Nat) : Code Unit :=
  if temp = 0 then do
    setNext prev blck
    setPrev blck prev
  else if prev ≠ 0 then do
    setNext blck temp
    setNext prev blck
    setPrev blck prev
    setPrev temp blck
  else do
    let first ← head bin
    setNext blck first
    let first ← head bin
    setPrev first blck
    setHead bin blck

/-- C `add_block_sorted`. -/
def addBlockSorted (bin : Fin binCnt) (blck : Nat) : Code Unit := do
  clearLinks blck
  let first ← head bin
  if first = 0 then setHead bin blck
  else do
    let pos ← sortedPos blck chainFuel 0 first
    linkBetween bin blck pos.1 pos.2

/-- The loop of `remove_block`. -/
def findBlock (blck : Nat) : Nat → Nat → Code Bool
  | 0, _ => fail .diverges
  | n + 1, temp =>
    if temp = 0 then return false
    else if temp = blck then return true
    else do
      let next ← next temp
      findBlock blck n next

/-- `remove_block` once the block has been found behind another one. -/
def unlink (blck : Nat) : Code Unit := do
  let behind ← next blck
  if behind = 0 then do
    let before ← prev blck
    setNext before 0
  else do
    let before ← prev blck
    let behind ← next blck
    setNext before behind
    let behind ← next blck
    let before ← prev blck
    setPrev behind before

/-- C `remove_block`. -/
def removeBlock (bin : Fin binCnt) (blck : Nat) : Code Unit := do
  let first ← head bin
  if first = 0 then return ()
  else if first = blck then do
    let behind ← next first
    setHead bin behind
    clearLinks blck
  else do
    let behind ← next first
    let found ← findBlock blck chainFuel behind
    if found then do
      unlink blck
      clearLinks blck
    else return ()

/-- `kheap_free` where it looks at the block before. -/
def mergePrev (blck prev : Nat) : Code Nat := do
  let free ← hole prev
  if free ≠ 0 then do
    let prevSz ← size prev
    removeBlock (getBinIndex prevSz) prev
    let prevSz ← size prev
    let blckSz ← size blck
    setSize prev (u32 (prevSz + (blckOverhead + blckSz)))
    let foot ← getFoot blck
    setHeader foot prev
    return prev
  else return blck

/-- `kheap_free` where it looks at the block behind. -/
def mergeNext (blck next : Nat) : Code Unit := do
  let free ← hole next
  if free ≠ 0 then do
    let nextSz ← size next
    removeBlock (getBinIndex nextSz) next
    let blckSz ← size blck
    let nextSz ← size next
    setSize blck (u32 (blckSz + (blckOverhead + nextSz)))
    let oldFoot ← getFoot next
    setHeader oldFoot 0
    setSize next 0
    let newFoot ← getFoot blck
    setHeader newFoot blck
  else return ()

/-- `blck->hole = 1; add_block_sorted(get_bin(blck->size), blck);`. -/
def settle (blck : Nat) : Code Unit := do
  setHole blck 1
  let blckSz ← size blck
  addBlockSorted (getBinIndex blckSz) blck

/-- `kheap_free` from the header `blck` on. -/
def freeBlock (blck : Nat) : Code Unit := do
  let first ← start
  if blck = first then settle blck
  else do
    let foot ← getFoot blck
    let prev ← header (sub32 blck footerSz)
    let blck ← mergePrev blck prev
    mergeNext blck (u32 (foot + footerSz))
    settle blck

/-- C `kheap_free`. -/
def kheapFree (addr : Nat) : Code Unit := freeBlock (sub32 addr offset)

/-! ## The traced functions compute what the plain ones do -/

section
variable {h : Heap} {bin : Fin binCnt} {blck : Nat}

/-- Read a plain result as a traced one. -/
def ended (r : Except Fault Heap) : Except Fault (Unit × Heap) := do
  let h ← r
  return ((), h)

/-- `getFoot` computes what the heap's own function does. -/
lemma run_getFoot : (getFoot blck).run h = .ok (Kheap.getFoot h blck, h) := rfl

/-- The links are cleared as by the heap's own function. -/
lemma run_clearLinks : (clearLinks blck).run h = .ok ((), Kheap.clearLinks h blck) := rfl

/-- The loop of `add_block_sorted` finds the same position. -/
lemma run_sortedPos {n prev temp : Nat} :
    (sortedPos blck n prev temp).run h = do
      let pos ← Kheap.sortedPos h blck n prev temp
      return (pos, h) := by
  induction n generalizing prev temp with
  | zero => rfl
  | succ n ih =>
    rw [sortedPos, Kheap.sortedPos]
    by_cases h0 : temp = 0
    · rw [if_pos h0, if_neg fun hc => hc.1 h0]
      rfl
    · rw [if_neg h0]
      by_cases hle : h.size temp ≤ h.size blck
      · rw [if_pos ⟨h0, hle⟩, ← ih]
        simp only [size, next, run_bind, run_load, run_ite, ok_bind, if_pos hle]
      · rw [if_neg fun hc => hle hc.2]
        simp only [size, next, run_bind, run_load, run_ite, run_pure, ok_bind, if_neg hle, pure_ok]

/-- The three links are written as by the heap's own function. -/
lemma run_linkBetween {prev temp : Nat} :
    (linkBetween bin blck prev temp).run h = .ok ((), Kheap.linkBetween h bin blck prev temp) := by
  rw [linkBetween, Kheap.linkBetween]
  by_cases ht : temp = 0
  · rw [if_pos ht, if_pos ht]
    rfl
  · rw [if_neg ht, if_neg ht]
    by_cases hp : prev ≠ 0
    · rw [if_pos hp, if_pos hp]
      rfl
    · rw [if_neg hp, if_neg hp]
      rfl

/-- `add_block_sorted` leaves the same heap. -/
lemma run_addBlockSorted :
    (addBlockSorted bin blck).run h = ended (Kheap.addBlockSorted h bin blck) := by
  simp only [addBlockSorted, Kheap.addBlockSorted, head, setHead, run_bind, run_clearLinks,
    run_load, run_store, run_ite, run_sortedPos, run_linkBetween, ok_bind]
  split
  · rfl
  · cases Kheap.sortedPos (Kheap.clearLinks h blck) blck chainFuel 0
      ((Kheap.clearLinks h blck).bins bin) with
    | error e => simp only [error_bind, ended]
    | ok pos => simp only [ok_bind, pure_ok, ended]

/-- The loop of `remove_block` finds the block in the same cases. -/
lemma run_findBlock {n temp : Nat} :
    (findBlock blck n temp).run h = do
      let found ← Kheap.findBlock h blck n temp
      return (found, h) := by
  induction n generalizing temp with
  | zero => rfl
  | succ n ih =>
    rw [findBlock, Kheap.findBlock]
    by_cases h0 : temp = 0
    · rw [if_pos h0, if_pos h0]
      rfl
    · rw [if_neg h0, if_neg h0]
      by_cases he : temp = blck
      · rw [if_pos he, if_pos he]
        rfl
      · rw [if_neg he, if_neg he, ← ih]
        simp only [next, run_bind, run_load, ok_bind]

/-- A block is unlinked in the same way. -/
lemma run_unlink : (unlink blck).run h = .ok ((), Kheap.unlink h blck) := by
  simp only [unlink, Kheap.unlink, next, prev, setNext, setPrev, run_bind, run_load, run_store,
    run_ite, ok_bind]
  split <;> rfl

/-- `remove_block` leaves the same heap. -/
lemma run_removeBlock :
    (removeBlock bin blck).run h = ended (Kheap.removeBlock h bin blck) := by
  simp only [removeBlock, Kheap.removeBlock, head, next, setHead, run_bind, run_load, run_store,
    run_ite, run_pure, run_findBlock, run_clearLinks, run_unlink, ok_bind]
  split
  · rfl
  · split
    · rfl
    · cases Kheap.findBlock h blck chainFuel (h.next (h.bins bin)) with
      | error e => simp only [error_bind, ended]
      | ok found => cases found <;> simp [ok_bind, pure_ok, ended]

/-- The merge with the block before leaves the same heap and returns the same block. -/
lemma run_mergePrev {prev : Nat} :
    (mergePrev blck prev).run h = do
      let r ← Kheap.mergePrev h blck prev
      return (r.2, r.1) := by
  simp only [mergePrev, Kheap.mergePrev, hole, size, setSize, setHeader, run_bind, run_load,
    run_store, run_ite, run_pure, run_removeBlock, run_getFoot, ok_bind]
  split
  · cases Kheap.removeBlock h (getBinIndex (h.size prev)) prev with
    | error e => simp only [error_bind, ended]
    | ok h₁ => simp only [ok_bind, pure_ok, ended]
  · simp only [ok_bind, pure_ok]

/-- The merge with the block behind leaves the same heap. -/
lemma run_mergeNext {next : Nat} :
    (mergeNext blck next).run h = ended (Kheap.mergeNext h blck next) := by
  simp only [mergeNext, Kheap.mergeNext, hole, size, setSize, setHeader, run_bind, run_load,
    run_store, run_ite, run_pure, run_removeBlock, run_getFoot, ok_bind]
  split
  · cases Kheap.removeBlock h (getBinIndex (h.size next)) next with
    | error e => simp only [error_bind, ended]
    | ok h₁ => simp only [ok_bind, pure_ok, ended]
  · simp only [ok_bind, pure_ok, ended]

/-- The end of `kheap_free` marks the block as free and puts it in the bin of its size. -/
lemma run_settle :
    (settle blck).run h = ended
      (Kheap.addBlockSorted (h.setHole blck 1) (getBinIndex ((h.setHole blck 1).size blck)) blck) := by
  simp only [settle, setHole, size, run_bind, run_store, run_load, run_addBlockSorted, ok_bind]

/-- The first block of the heap is not merged. -/
lemma run_freeBlock_first (hs : blck = h.start) : (freeBlock blck).run h = (settle blck).run h := by
  rw [freeBlock, run_bind, start, run_load, ok_bind, if_pos hs]

/-- Any other block is merged with the one before, then with the one behind. -/
lemma run_freeBlock_other (hs : blck ≠ h.start) :
    (freeBlock blck).run h = Kheap.mergePrev h blck (h.header (sub32 blck footerSz)) >>= fun r =>
      Kheap.mergeNext r.1 r.2 (u32 (Kheap.getFoot h blck + footerSz)) >>= fun h' =>
        ended (Kheap.addBlockSorted (h'.setHole r.2 1) (getBinIndex ((h'.setHole r.2 1).size r.2))
          r.2) := by
  rw [freeBlock, run_bind, start, run_load, ok_bind, if_neg hs]
  simp only [header, run_bind, run_load, run_getFoot, run_mergePrev, run_mergeNext, ok_bind]
  cases Kheap.mergePrev h blck (h.header (sub32 blck footerSz)) with
  | error e => rfl
  | ok r =>
    simp only [ok_bind, pure_ok]
    cases Kheap.mergeNext r.1 r.2 (u32 (Kheap.getFoot h blck + footerSz)) with
    | error e => rfl
    | ok h₂ => exact run_settle

/-- Without its log, the traced `kheap_free` is the plain one. -/
lemma run_kheapFree {addr : Nat} : (kheapFree addr).run h = ended (Kheap.kheapFree h addr) := by
  by_cases hs : sub32 addr offset = h.start
  · have hp : Kheap.kheapFree h addr = Kheap.addBlockSorted (h.setHole (sub32 addr offset) 1)
        (getBinIndex ((h.setHole (sub32 addr offset) 1).size (sub32 addr offset)))
        (sub32 addr offset) := by
      simp only [Kheap.kheapFree, if_pos hs]
    rw [kheapFree, run_freeBlock_first hs, run_settle, hp]
  · rw [kheapFree, run_freeBlock_other hs]
    simp only [Kheap.kheapFree, if_neg hs]
    cases Kheap.mergePrev h (sub32 addr offset) (h.header (sub32 (sub32 addr offset) footerSz)) with
    | error e => rfl
    | ok r =>
      simp only [ok_bind]
      cases Kheap.mergeNext r.1 r.2 (u32 (Kheap.getFoot h (sub32 addr offset) + footerSz)) <;> rfl

end

/-! ## They depend on what they log only -/

section
variable {W : Nat → Prop} {h h' : Heap} {bin : Fin binCnt} {blck : Nat}

/-- Heaps that agree on the four bytes have the same word there. -/
lemma agree_word {a : Nat} (ag : Agree W h h') (hw : ∀ i ∈ word a, W i) :
    readWord h'.mem a = readWord h.mem a := by
  simp only [word, List.forall_mem_cons] at hw
  obtain ⟨h₀, h₁, h₂, h₃, -⟩ := hw
  rw [readWord, readWord, ag.mem _ h₀, ag.mem _ h₁, ag.mem _ h₂, ag.mem _ h₃]

/-- The same byte written to both keeps the agreement. -/
lemma agree_writeByte {a : Nat} {v : UInt8} (ag : Agree W h h') :
    Agree W { h with mem := writeByte h.mem a v } { h' with mem := writeByte h'.mem a v } := by
  refine ⟨fun x hx => ?_, ag.start, ag.end_, ag.bins⟩
  simp only [writeByte, ag.mem x hx]

/-- The same word written to both keeps the agreement. -/
lemma agree_writeWord {a v : Nat} (ag : Agree W h h') :
    Agree W { h with mem := writeWord h.mem a v } { h' with mem := writeWord h'.mem a v } :=
  agree_writeByte (agree_writeByte (agree_writeByte (agree_writeByte ag)))

/-- The hole flag is read from the block only. -/
lemma local_hole : Local Agree (hole blck) :=
  local_load fun _ _ _ hw ag => ag.mem _ (hw _ (by simp))

/-- The size is read from the block only. -/
lemma local_size : Local Agree (size blck) := local_load fun _ _ _ hw ag => agree_word ag hw

/-- The link to the next block is read from the block only. -/
lemma local_next : Local Agree (next blck) := local_load fun _ _ _ hw ag => agree_word ag hw

/-- The link to the block before is read from the block only. -/
lemma local_prev : Local Agree (prev blck) := local_load fun _ _ _ hw ag => agree_word ag hw

/-- The header in a footer is read from the footer only. -/
lemma local_header {foot : Nat} : Local Agree (header foot) :=
  local_load fun _ _ _ hw ag => agree_word ag hw

/-- The head of a bin is read from the bin only. -/
lemma local_head : Local Agree (head bin) :=
  local_load fun _ _ _ _ ag => congrFun ag.bins bin

/-- The start of the heap is read from its record only. -/
lemma local_start : Local Agree start := local_load fun _ _ _ _ ag => ag.start

/-- A hole flag is written whatever the heap holds. -/
lemma local_setHole {v : UInt8} : Local Agree (setHole blck v) :=
  local_store fun _ _ _ _ ag => agree_writeByte ag

/-- A size is written whatever the heap holds. -/
lemma local_setSize {v : Nat} : Local Agree (setSize blck v) :=
  local_store fun _ _ _ _ ag => agree_writeWord ag

/-- A link to a next block is written whatever the heap holds. -/
lemma local_setNext {v : Nat} : Local Agree (setNext blck v) :=
  local_store fun _ _ _ _ ag => agree_writeWord ag

/-- A link to a block before is written whatever the heap holds. -/
lemma local_setPrev {v : Nat} : Local Agree (setPrev blck v) :=
  local_store fun _ _ _ _ ag => agree_writeWord ag

/-- A header is written to a footer whatever the heap holds. -/
lemma local_setHeader {foot v : Nat} : Local Agree (setHeader foot v) :=
  local_store fun _ _ _ _ ag => agree_writeWord ag

/-- The head of a bin is written whatever the heap holds. -/
lemma local_setHead {v : Nat} : Local Agree (setHead bin v) :=
  local_store fun _ _ _ _ ag => ⟨ag.mem, ag.start, ag.end_, by
    simp only [Heap.setHead, ag.bins]⟩

/-- The place of the footer depends on the size only. -/
lemma local_getFoot : Local Agree (getFoot blck) := local_size.bind fun _ => local_pure

/-- Clearing the links is two writes. -/
lemma local_clearLinks : Local Agree (clearLinks blck) := local_setNext.bind fun _ => local_setPrev

/-- The loop reads the sizes and the links of the blocks it comes by. -/
lemma local_sortedPos {n prev temp : Nat} : Local Agree (sortedPos blck n prev temp) := by
  induction n generalizing prev temp with
  | zero => exact local_fail
  | succ n ih =>
    refine local_pure.ite (local_size.bind fun _ => local_size.bind fun _ => ?_)
    exact (local_next.bind fun _ => ih).ite local_pure

/-- The links are written after the place is known. -/
lemma local_linkBetween {prev temp : Nat} : Local Agree (linkBetween bin blck prev temp) := by
  refine Local.ite (local_setNext.bind fun _ => local_setPrev) (Local.ite ?_ ?_)
  · exact local_setNext.bind fun _ => local_setNext.bind fun _ => local_setPrev.bind fun _ =>
      local_setPrev
  · exact local_head.bind fun _ => local_setNext.bind fun _ => local_head.bind fun _ =>
      local_setPrev.bind fun _ => local_setHead

/-- `add_block_sorted` depends on what it reads. -/
lemma local_addBlockSorted : Local Agree (addBlockSorted bin blck) :=
  local_clearLinks.bind fun _ => local_head.bind fun _ =>
    local_setHead.ite (local_sortedPos.bind fun _ => local_linkBetween)

/-- The loop of `remove_block` reads the links of the blocks it comes by. -/
lemma local_findBlock {n temp : Nat} : Local Agree (findBlock blck n temp) := by
  induction n generalizing temp with
  | zero => exact local_fail
  | succ n ih => exact local_pure.ite (local_pure.ite (local_next.bind fun _ => ih))

/-- Unlinking reads the links of the block. -/
lemma local_unlink : Local Agree (unlink blck) := by
  refine local_next.bind fun _ => (local_prev.bind fun _ => local_setNext).ite ?_
  exact local_prev.bind fun _ => local_next.bind fun _ => local_setNext.bind fun _ =>
    local_next.bind fun _ => local_prev.bind fun _ => local_setPrev

/-- `remove_block` depends on what it reads. -/
lemma local_removeBlock : Local Agree (removeBlock bin blck) := by
  refine local_head.bind fun _ => local_pure.ite (Local.ite ?_ ?_)
  · exact local_next.bind fun _ => local_setHead.bind fun _ => local_clearLinks
  · exact local_next.bind fun _ => local_findBlock.bind fun _ =>
      (local_unlink.bind fun _ => local_clearLinks).ite local_pure

/-- The merge with the block before depends on what it reads. -/
lemma local_mergePrev {prev : Nat} : Local Agree (mergePrev blck prev) := by
  refine local_hole.bind fun _ => Local.ite ?_ local_pure
  exact local_size.bind fun _ => local_removeBlock.bind fun _ => local_size.bind fun _ =>
    local_size.bind fun _ => local_setSize.bind fun _ => local_getFoot.bind fun _ =>
    local_setHeader.bind fun _ => local_pure

/-- The merge with the block behind depends on what it reads. -/
lemma local_mergeNext {next : Nat} : Local Agree (mergeNext blck next) := by
  refine local_hole.bind fun _ => Local.ite ?_ local_pure
  exact local_size.bind fun _ => local_removeBlock.bind fun _ => local_size.bind fun _ =>
    local_size.bind fun _ => local_setSize.bind fun _ => local_getFoot.bind fun _ =>
    local_setHeader.bind fun _ => local_setSize.bind fun _ => local_getFoot.bind fun _ =>
    local_setHeader

/-- The end of `kheap_free` depends on what it reads. -/
lemma local_settle : Local Agree (settle blck) :=
  local_setHole.bind fun _ => local_size.bind fun _ => local_addBlockSorted

/-- `kheap_free` depends on no byte but those it logs. -/
lemma local_kheapFree {addr : Nat} : Local Agree (kheapFree addr) := by
  refine local_start.bind fun _ => local_settle.ite ?_
  exact local_getFoot.bind fun _ => local_header.bind fun _ => local_mergePrev.bind fun _ =>
    local_mergeNext.bind fun _ => local_settle

end

end Access

end ToeS.Kheap
