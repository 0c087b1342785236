import ToeS.Lib.Ledger
import ToeS.Lib.Run
import ToeS.Vmm.Page

/-!
# Frame ownership

The bitset `frames` and any set of page entries, under any run of `map_page` without an address and
of `unmap_page`. The bitset and the 20-bit `addr` fields implement a ledger: a bit is set when the
frame is used, an entry holds the frame in its `addr`, and 0 means that it holds none.
-/

namespace ToeS.Vmm
open Lib Frames

/-- The bitset and the page entries. -/
structure Pool (ι : Type) where
  frames : BitSet
  page : ι → Page

/-- A call on one of the entries. -/
inductive Call (ι : Type) where
  | map (i : ι) (usr write : Nat)
  | unmap (i : ι)

variable {ι : Type}

/-- The entry `i` holds the frame with the number `f`. -/
def Pool.Holds (s : Pool ι) (i : ι) (f : Nat) : Prop := f ≠ 0 ∧ (s.page i).addr.val = f

/-- No frame is held twice, and the bits of the bitset that are set are those that were set at the
start and those of the held frames. What is held is a frame, and was free at the start. -/
structure Owned (init : BitSet) (s : Pool ι) : Prop where
  unique : ∀ i j f, s.Holds i f → s.Holds j f → i = j
  marked : ∀ f, bsTst s.frames f = 1 ↔ bsTst init f = 1 ∨ ∃ i, s.Holds i f
  valid : ∀ i f, s.Holds i f → f < bsGetSize s.frames ∧ bsTst init f ≠ 1

/-- One call. -/
def Pool.step [DecidableEq ι] (s : Pool ι) : Call ι → Except Fault (Pool ι)
  | .map i usr write =>
    let (frames, pg) := mapPage s.frames (s.page i) usr write 0
    .ok ⟨frames, Function.update s.page i pg⟩
  | .unmap i =>
    let (frames, pg) := unmapPage s.frames (s.page i)
    .ok ⟨frames, Function.update s.page i pg⟩

/-! ## The ledger -/

/-- The frames that the bitset reserves. -/
def reserved (init : BitSet) : Set Nat := {f | bsTst init f = 1}

/-- What the `addr` field of an entry says it holds. -/
def Page.holding (pg : Page) : Option Nat := if pg.addr = 0 then none else some pg.addr

/-- The pool implements the ledger. -/
structure Pool.Rep (init : BitSet) (L : Ledger ι (reserved init)) (s : Pool ι) : Prop where
  sz : s.frames.sz = init.sz
  used : ∀ f, f ∈ L.used ↔ bsTst s.frames f = 1
  holder : L.holder = fun i => (s.page i).holding

section
variable {init : BitSet} {L : Ledger ι (reserved init)} {s : Pool ι} {i : ι} {f : Nat}

/-- A page holds the frame in its entry, if that is not 0. -/
lemma Page.holding_eq_some {pg : Page} : pg.holding = some f ↔ f ≠ 0 ∧ pg.addr.val = f := by
  unfold Page.holding
  split
  · rename_i h
    rw [h]
    constructor
    · intro h
      cases h
    · rintro ⟨h0, h⟩
      exact absurd h.symm h0
  · rename_i h
    constructor
    · rintro ⟨⟩
      exact ⟨fun h0 => h (Fin.ext h0), rfl⟩
    · rintro ⟨-, rfl⟩
      rfl

/-- The entries hold what the ledger says. -/
lemma Pool.Rep.holds (R : Pool.Rep init L s) : L.holder i = some f ↔ s.Holds i f := by
  rw [R.holder]
  exact Page.holding_eq_some

/-- The size of the bitset does not change. -/
lemma Pool.Rep.size (R : Pool.Rep init L s) : bsGetSize s.frames = bsGetSize init := by
  rw [bsGetSize, R.sz, bsGetSize]

/-- A pool that implements a ledger has no frame handed out twice and none lost. -/
lemma Pool.Rep.owned (R : Pool.Rep init L s) : Owned init s where
  unique := fun _ _ _ hi hj => L.unique (R.holds.mpr hi) (R.holds.mpr hj)
  marked := by
    intro f
    rw [← R.used, L.used_iff]
    exact or_congr Iff.rfl (exists_congr fun i => R.holds)
  valid := by
    intro i f h
    have hf : bsTst init f ≠ 1 := L.fresh (R.holds.mpr h)
    exact ⟨R.size ▸ (bsTst_ne_one.mp hf).1, hf⟩

/-- Entries that hold nothing implement the empty ledger. -/
lemma Pool.Rep.empty {page : ι → Page} (hp : ∀ i, (page i).addr = 0) :
    Pool.Rep init (Ledger.empty : Ledger ι (reserved init)) ⟨init, page⟩ where
  sz := rfl
  used := fun _ => Iff.rfl
  holder := funext fun i => (if_pos (hp i)).symm

variable [DecidableEq ι]

/-- Storing an entry changes what its own index holds. -/
lemma holding_update (s : Pool ι) (i : ι) (pg : Page) :
    (fun j => (Function.update s.page i pg j).holding) =
      Function.update (fun j => (s.page j).holding) i pg.holding := by
  ext1 j
  rw [Function.update_apply, Function.update_apply]
  split <;> rfl

/-- A call that changes neither the bits nor what the entry holds. -/
lemma Pool.Rep.idle (R : Pool.Rep init L s) (pg : Page) (h : pg.holding = (s.page i).holding) :
    Pool.Rep init L ⟨s.frames, Function.update s.page i pg⟩ where
  sz := R.sz
  used := R.used
  holder := by
    rw [holding_update, h, R.holder]
    exact (Function.update_eq_self i _).symm

/-- An entry without a frame is given a clear bit. -/
lemma Pool.Rep.take (R : Pool.Rep init L s) (pg : Page) (hf : f < bsGetSize s.frames)
    (hclr : get s.frames f = false) (hi : (s.page i).holding = none) (hpg : pg.holding = some f) :
    ∃ L', Pool.Rep init L' ⟨bsSet s.frames f, Function.update s.page i pg⟩ := by
  have hu : f ∉ L.used := fun h => bsTst_ne_one.mpr ⟨hf, hclr⟩ ((R.used f).mp h)
  have hn : L.holder i = none := (congrFun R.holder i).trans hi
  refine ⟨L.take i f hu hn, sz_set.trans R.sz, fun k => ?_, ?_⟩
  · rw [bsTst_set hf, ← R.used]
    rfl
  · rw [holding_update, hpg, ← R.holder]
    rfl

/-- An entry with a frame gives its bit back. -/
lemma Pool.Rep.release (R : Pool.Rep init L s) (pg : Page) (hi : (s.page i).holding = some f)
    (hpg : pg.holding = none) :
    ∃ L', Pool.Rep init L' ⟨bsClr s.frames f, Function.update s.page i pg⟩ := by
  have hh : L.holder i = some f := (congrFun R.holder i).trans hi
  have hf := (R.owned.valid i f (R.holds.mp hh)).1
  refine ⟨L.release i, sz_clr.trans R.sz, fun k => ?_, ?_⟩
  · rw [bsTst_clr hf, ← R.used]
    show k ∈ L.used ∧ ¬ L.holder i = some k ↔ _
    rw [hh, Option.some.injEq, eq_comm (a := f), and_comm]
  · rw [holding_update, hpg, ← R.holder]
    rfl

/-- Every call takes a ledger to a ledger. -/
lemma Pool.Rep.step (R : Pool.Rep init L s) (hsz : init.sz * 32 ≤ 1048576)
    (h0 : bsTst init 0 = 1) (c : Call ι) : ∃ s' L', s.step c = .ok s' ∧ Pool.Rep init L' s' := by
  have hs : s.frames.sz * 32 ≤ 1048576 := R.sz.symm ▸ hsz
  cases c with
  | map i usr write =>
    by_cases hi : (s.page i).addr = 0
    · rcases mapPage_any usr write hi (show s.frames.sz * 32 < 4294967296 by omega) with
        ⟨hm, -⟩ | ⟨idx, hlt, hclr, -, hm⟩
      · exact ⟨_, L, by rw [Pool.step, hm], R.idle ((s.page i).attr usr write) rfl⟩
      · have hne : idx ≠ 0 := by
          rintro rfl
          exact bsTst_ne_one.mpr ⟨hlt, hclr⟩ ((R.owned.marked 0).mpr (.inl h0))
        have hidx : idx < 1048576 := by
          have := u32_le (s.frames.sz * 32)
          unfold bsGetSize at hlt
          omega
        have hnone : (s.page i).holding = none := if_pos hi
        obtain ⟨L', R'⟩ := R.take (i := i)
          { (s.page i).attr usr write with addr := Fin.ofNat _ idx } hlt hclr hnone
          (Page.holding_eq_some.mpr ⟨hne, ofNat_val hidx⟩)
        exact ⟨_, L', by rw [Pool.step, hm hidx], R'⟩
    · exact ⟨_, L, by rw [Pool.step, mapPage_held hi],
        R.idle ((s.page i).attr usr write) rfl⟩
  | unmap i =>
    by_cases hi : (s.page i).addr = 0
    · have hnone : (s.page i).holding = none := if_pos hi
      exact ⟨_, L, by rw [Pool.step, unmapPage_free hi], R.idle Page.zero hnone.symm⟩
    · obtain ⟨L', R'⟩ := R.release (i := i) Page.zero (if_neg hi) rfl
      exact ⟨_, L', by rw [Pool.step, unmapPage_held hi], R'⟩

end

variable [DecidableEq ι]

/-- Frame ownership: over every run of `map_page` without an address and `unmap_page` on entries that
start without frames, with frame 0 reserved and frame numbers of at most 20 bits, at every step no
frame is held by two entries and the used frames are the reserved and the held ones. -/
theorem frames_owned {init : BitSet} {page : ι → Page} (hsz : init.sz * 32 ≤ 1048576)
    (h0 : bsTst init 0 = 1) (hp : ∀ i, (page i).addr = 0) (l : List (Call ι)) :
    Always Pool.step (Owned init) ⟨init, page⟩ l := by
  have hl : LegalRun Pool.step (fun _ _ => True) ⟨init, page⟩ l := .of_forall fun _ _ => trivial
  refine always_of_inv (I := fun s => ∃ L, Pool.Rep init L s) ?_ (fun _ ⟨_, R⟩ => R.owned)
    ⟨_, Pool.Rep.empty hp⟩ hl
  rintro s c ⟨L, R⟩ -
  obtain ⟨s', L', hs, R'⟩ := R.step hsz h0 c
  exact ⟨s', hs, L', R'⟩

/-- A bitset of 32 frames whose first is reserved, and two entries: the second is mapped after the
first has been mapped and unmapped. -/
theorem frames_owned_two :
    Always Pool.step (Owned ⟨1, #v[1#32]⟩) ⟨⟨1, #v[1#32]⟩, fun _ : Bool => Page.zero⟩
      [.map true 1 1, .unmap true, .map false 1 1, .map true 0 1] :=
  frames_owned (by decide) (by decide) (fun _ => rfl) _

end ToeS.Vmm
