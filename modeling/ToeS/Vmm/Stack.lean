import ToeS.Vmm.Copy

/-!
# Stack pages

Model of `allocate_stack` of `kern/mm/vmm.c`, the loop that maps the pages of a range. Virtual pages
are known by their number. `StackMapped` says what mapping `n` pages from the page `k` on does to a
directory; it holds for one round of the loop, and two adjacent ranges make one.

The loop counter has 32 bits: a range that reaches into the last page has no end the counter could
reach.
-/

namespace ToeS.Vmm
open Lib Frames

variable {σ : Type}

namespace State

section
variable (kmallocAp : σ → Nat → Nat × Nat × σ)

/-- The loop of `allocate_stack` from `i` on. -/
def stackLoop (start sz pd : Nat) : Nat → Nat → State σ → Except Fault (State σ)
  | 0, _, _ => .error .diverges
  | n + 1, i, s =>
    if i < u32 (start + sz) then do
      let (_, s) ← s.mapAt kmallocAp i pd 0
      stackLoop start sz pd n (u32 (i + pgSz)) s
    else .ok s

/-- C `allocate_stack`. -/
def allocateStack (start sz pd : Nat) (s : State σ) : Except Fault (Nat × State σ) := do
  let s ← stackLoop kmallocAp start sz pd chainFuel start s
  return (start, s)

end

/-- The entry that the directory `d` has for the virtual page `v`. -/
def pageEntry (s : State σ) (d v : Nat) : Page := s.entry d (pdIdx (v * 4096)) (ptIdx (v * 4096))

/-- The pages among `n` from `k` on that have no frame. -/
def unbacked (s : State σ) (d k n : Nat) : List Nat :=
  (List.range' k n).filter fun v => (s.pageEntry d v).addr = 0

/-- The indices without a table among those of `n` pages from `k` on. -/
def newTabs (s : State σ) (d k n : Nat) : Finset (Fin 1024) :=
  Finset.univ.filter fun i =>
    (s.dirs d).tables i = 0 ∧ ∃ v ∈ List.range' k n, pdIdx (v * 4096) = i

end State

/-- What is asked of a directory: its tables are tables of their own, and frame 0 is used. -/
structure Stackable (s : State σ) (d : Nat) : Prop where
  isDir : s.IsDir d
  inv : Inv s
  apart : ∀ i j : Fin 1024, i ≠ j → s.Sep (d, i) (d, j)
  bits : s.frames.sz * 32 < 4294967296
  zero : Frames.get s.frames 0 = true

/-- On the way from `s` to `s'` the directory `d` got the `n` pages from `k` on. -/
structure StackMapped (s s' : State σ) (d k n : Nat) : Prop where
  able : Stackable s' d
  present : ∀ v, k ≤ v → v < k + n → (s'.pageEntry d v).present = true
  /-- A page without a frame gets one that was free. -/
  backed : ∀ v, k ≤ v → v < k + n → (s.pageEntry d v).addr = 0 →
    (s'.pageEntry d v).addr ≠ 0 ∧ (s'.pageEntry d v).addr.val < bsGetSize s.frames ∧
      Frames.get s.frames (s'.pageEntry d v).addr = false
  /-- Distinct pages get distinct frames. -/
  distinct : ∀ v w, k ≤ v → v < k + n → k ≤ w → w < k + n → (s.pageEntry d v).addr = 0 →
    (s.pageEntry d w).addr = 0 → (s'.pageEntry d v).addr = (s'.pageEntry d w).addr → v = w
  /-- A page that has a frame keeps it. -/
  kept : ∀ v, k ≤ v → v < k + n → (s.pageEntry d v).addr ≠ 0 →
    (s'.pageEntry d v).addr = (s.pageEntry d v).addr
  /-- The other pages are as they were. -/
  outside : ∀ v < 1048576, v < k ∨ k + n ≤ v → s'.pageEntry d v = s.pageEntry d v
  /-- The used frames are the old ones and the new ones. -/
  sz : s'.frames.sz = s.frames.sz
  frames : ∀ f, Frames.get s'.frames f = true ↔ Frames.get s.frames f = true ∨
    ∃ v, k ≤ v ∧ v < k + n ∧ (s.pageEntry d v).addr = 0 ∧ (s'.pageEntry d v).addr.val = f

/-! ## Ranges -/

section
variable {s s' s'' : State σ} {d k m n : Nat}

/-- An empty range. -/
lemma StackMapped.refl (h : Stackable s d) : StackMapped s s d k 0 where
  able := h
  present := fun _ _ _ => by omega
  backed := fun _ _ _ => by omega
  distinct := fun _ _ _ _ => by omega
  kept := fun _ _ _ => by omega
  outside := fun _ _ _ => rfl
  sz := rfl
  frames := fun f => by
    refine ⟨.inl, fun h => h.resolve_right ?_⟩
    rintro ⟨v, _, _, -⟩
    omega

/-- Two adjacent ranges. -/
lemma StackMapped.trans (h : StackMapped s s' d k m) (h' : StackMapped s' s'' d (k + m) n)
    (hk : k + m + n ≤ 1048576) : StackMapped s s'' d k (m + n) := by
  -- what a page of one range is before and after the other one
  have hfst : ∀ v, v < k + m → s''.pageEntry d v = s'.pageEntry d v :=
    fun v hv => h'.outside v (by omega) (.inl hv)
  have hsnd : ∀ v, k + m ≤ v → v < k + m + n → s'.pageEntry d v = s.pageEntry d v :=
    fun v hv hv' => h.outside v (by omega) (.inr hv)
  -- a frame of the first range is not given out in the second
  have hcross : ∀ v w, k ≤ v → v < k + m → k + m ≤ w → w < k + m + n →
      (s.pageEntry d v).addr = 0 → (s.pageEntry d w).addr = 0 →
      (s''.pageEntry d v).addr ≠ (s''.pageEntry d w).addr := by
    intro v w hv hv' hw hw' hfv hfw he
    have hfree := (h'.backed w hw (by omega) (by rwa [hsnd w hw hw'])).2.2
    rw [← he, hfst v hv', (h.frames _).mpr (.inr ⟨v, hv, hv', hfv, rfl⟩)] at hfree
    cases hfree
  refine ⟨h'.able, fun v hv hv' => ?_, fun v hv hv' hf => ?_, fun v w hv hv' hw hw' hfv hfw he => ?_,
    fun v hv hv' hf => ?_, fun v hv ho => ?_, h'.sz.trans h.sz, fun f => ?_⟩
  · by_cases hm : v < k + m
    · rw [hfst v hm]
      exact h.present v hv hm
    · exact h'.present v (by omega) (by omega)
  · by_cases hm : v < k + m
    · rw [hfst v hm]
      exact h.backed v hv hm hf
    · obtain ⟨h0, hlt, hfree⟩ := h'.backed v (by omega) (by omega)
        (by rwa [hsnd v (by omega) (by omega)])
      refine ⟨h0, by rwa [bsGetSize, ← h.sz], ?_⟩
      by_contra hb
      rw [(h.frames _).mpr (.inl (by simpa using hb))] at hfree
      cases hfree
  · by_cases hm : v < k + m <;> by_cases hm' : w < k + m
    · rw [hfst v hm, hfst w hm'] at he
      exact h.distinct v w hv hm hw hm' hfv hfw he
    · exact absurd he (hcross v w hv hm (by omega) (by omega) hfv hfw)
    · exact absurd he.symm (hcross w v hw hm' (by omega) (by omega) hfw hfv)
    · rw [← hsnd v (by omega) (by omega)] at hfv
      rw [← hsnd w (by omega) (by omega)] at hfw
      exact h'.distinct v w (by omega) (by omega) (by omega) (by omega) hfv hfw he
  · by_cases hm : v < k + m
    · rw [hfst v hm]
      exact h.kept v hv hm hf
    · rw [← hsnd v (by omega) (by omega)] at hf ⊢
      exact h'.kept v (by omega) (by omega) hf
  · rw [h'.outside v hv (by omega), h.outside v hv (by omega)]
  · rw [h'.frames, h.frames, or_assoc]
    refine or_congr Iff.rfl ⟨?_, ?_⟩
    · rintro (⟨v, hv, hv', hf, he⟩ | ⟨v, hv, hv', hf, he⟩)
      · exact ⟨v, hv, by omega, hf, by rwa [hfst v hv']⟩
      · exact ⟨v, by omega, by omega, by rwa [← hsnd v hv hv'], he⟩
    · rintro ⟨v, hv, hv', hf, he⟩
      by_cases hm : v < k + m
      · exact .inl ⟨v, hv, hm, hf, by rwa [← hfst v hm]⟩
      · exact .inr ⟨v, by omega, by omega, by rwa [hsnd v (by omega) (by omega)], he⟩

end

/-! ## One page -/

section
variable {bs : BitSet} {pg : Page} {f v w : Nat}

/-- Distinct pages of one table have distinct entries. -/
lemma ptIdx_ne (hv : v < 1048576) (hw : w < 1048576) (hvw : v ≠ w)
    (hd : pdIdx (v * 4096) = pdIdx (w * 4096)) : ptIdx (v * 4096) ≠ ptIdx (w * 4096) := by
  intro hp
  have hd : v * 4096 / 4194304 % 1024 = w * 4096 / 4194304 % 1024 := congrArg Fin.val hd
  have hp : v * 4096 / 4096 % 1024 = w * 4096 / 4096 % 1024 := congrArg Fin.val hp
  omega

/-- The frames that can be handed out. -/
lemma mem_freeFrames :
    f ∈ freeFrames bs ↔ f < bsGetSize bs ∧ f < 1048576 ∧ Frames.get bs f = false := by
  simp [freeFrames, and_assoc]

/-- Free frames are counted once. -/
lemma nodup_freeFrames : (freeFrames bs).Nodup := List.nodup_range.filter _

/-- When the frames of a list are taken, there are fewer free ones by its length at most. -/
lemma length_freeFrames_le {bs' : BitSet} {l : List Nat} (hsz : bs'.sz = bs.sz)
    (h : ∀ f, Frames.get bs' f = true → Frames.get bs f = true ∨ f ∈ l) :
    (freeFrames bs).length ≤ (freeFrames bs').length + l.length := by
  have hsub : freeFrames bs ⊆ freeFrames bs' ++ l := by
    intro f hf
    obtain ⟨hlt, h20, hclr⟩ := mem_freeFrames.mp hf
    by_cases hused : Frames.get bs' f = true
    · exact List.mem_append_right _ ((h f hused).resolve_left (by rw [hclr]; decide))
    · refine List.mem_append_left _ (mem_freeFrames.mpr ⟨?_, h20, by simpa using hused⟩)
      rwa [bsGetSize, hsz]
  have hle := (nodup_freeFrames.subperm hsub).length_le
  rwa [List.length_append] at hle

/-- A frame that is used now is one free frame less. -/
lemma length_freeFrames_bsSet (hf : f < bsGetSize bs) :
    (freeFrames bs).length ≤ (freeFrames (bsSet bs f)).length + 1 := by
  refine length_freeFrames_le (l := [f]) (sz_set ..) fun g hg => ?_
  rw [get_set hf] at hg
  simpa using hg

/-- A copy takes a frame for every page. -/
lemma Copied.length_freeFrames {s s' : State σ} {dir new : Nat} (h : Copied s s' dir new) :
    (freeFrames s.frames).length ≤ (freeFrames s'.frames).length + (s.lowPages dir).length := by
  have hle := length_freeFrames_le (l := (s.lowPages dir).map fun k => (s'.entry new k.1 k.2).addr.val)
    h.sz fun f hf => ((h.frames f).mp hf).imp_right ?_
  · rwa [List.length_map] at hle
  · rintro ⟨i, p, hi, ha, rfl⟩
    exact List.mem_map.mpr ⟨(i, p), State.mem_lowPages.mpr ⟨hi, ha⟩, rfl⟩

/-- `map_page` of a page without a frame, while a frame is free. -/
lemma mapPage_backs (hs : bs.sz * 32 < 4294967296) (h0 : Frames.get bs 0 = true)
    (ha : pg.addr = 0) (hf : 0 < (freeFrames bs).length) :
    ∃ f, f ≠ 0 ∧ f < bsGetSize bs ∧ f < 1048576 ∧ Frames.get bs f = false ∧
      mapPage bs pg 1 1 0 = (bsSet bs f, { pg.attr 1 1 with addr := Fin.ofNat _ f }) := by
  obtain ⟨g, hg⟩ := List.exists_mem_of_length_pos hf
  obtain ⟨hlt, h20, hfree⟩ := mem_freeFrames.mp hg
  rcases mapPage_any 1 1 ha hs with ⟨-, hfull⟩ | ⟨f, hf, hclr, hbelow, hmap⟩
  · rw [hfull g hlt] at hfree
    cases hfree
  · have hfg : f ≤ g := by
      by_contra hgf
      rw [hbelow g (by omega)] at hfree
      cases hfree
    refine ⟨f, ?_, hf, by omega, hclr, hmap (by omega)⟩
    rintro rfl
    rw [h0] at hclr
    cases hclr

end

section
variable {kmallocAp : σ → Nat → Nat × Nat × σ} {P : Region → Prop} {s s' : State σ} {d k n : Nat}

/-- What a new entry for the page `k` does, `v` being the entry. -/
lemma Stackable.puts {v : Page} (h : Stackable s d) (hk : k < 1048576) (hf : Fresh s'.log)
    (hp : Puts s s' d (pdIdx (k * 4096)) (ptIdx (k * 4096)) v)
    (hsz : s'.frames.sz = s.frames.sz) (h0 : Frames.get s'.frames 0 = true) :
    Stackable s' d ∧ s'.pageEntry d k = v ∧
      ∀ w < 1048576, w ≠ k → s'.pageEntry d w = s.pageEntry d w := by
  refine ⟨⟨h.isDir.mono hp.keeps.log, hp.keeps.inv hf h.inv, fun i j hij => ?_, hsz ▸ h.bits,
    h0⟩, hp.self, fun w hw hwk => ?_⟩
  · exact hp.sep _ _ h.isDir h.isDir (fun e => hij (Prod.mk.inj e).2) (h.apart i j hij)
  · by_cases hd : pdIdx (w * 4096) = pdIdx (k * 4096)
    · have hrow := hp.row _ (ptIdx_ne hw hk hwk hd)
      rwa [← hd] at hrow
    · exact hp.entry d h.isDir _ _ (fun e => hd (Prod.mk.inj e).2) (h.apart _ _ (Ne.symm hd))

/-- One round of the loop. -/
lemma Stackable.mapAt (h : Stackable s d) (hk : k < 1048576)
    (hr : s.Room kmallocAp P (s.missing d (pdIdx (k * 4096)) + n))
    (hfree : (s.unbacked d k 1).length ≤ (freeFrames s.frames).length) :
    ∃ page s', s.mapAt kmallocAp (k * 4096) d 0 = .ok (page, s') ∧ StackMapped s s' d k 1 ∧
      (freeFrames s.frames).length ≤
        (freeFrames s'.frames).length + (s.unbacked d k 1).length ∧
      (s'.dirs d).tables (pdIdx (k * 4096)) ≠ 0 ∧
      (∀ j, j ≠ pdIdx (k * 4096) → (s'.dirs d).tables j = (s.dirs d).tables j) ∧
      s'.Room kmallocAp P n := by
  obtain ⟨s', hrun, hp, hfr, -, hroom⟩ := mapAt_puts 0 h.inv h.isDir hr
  have htable : ∀ j, j ≠ pdIdx (k * 4096) → (s'.dirs d).tables j = (s.dirs d).tables j :=
    fun j hj => hp.table d j fun e => hj (Prod.mk.inj e).2
  have hone : ∀ {v}, k ≤ v → v < k + 1 → v = k := fun _ _ => by omega
  refine ⟨_, s', hrun, ?_⟩
  by_cases ha : (s.pageEntry d k).addr = 0
  · have hun : s.unbacked d k 1 = [k] := by
      simp [State.unbacked, ha]
    rw [hun] at hfree ⊢
    obtain ⟨f, hf0, hlt, h20, hclr, hmap⟩ := mapPage_backs h.bits h.zero ha hfree
    have hbits : s'.frames = bsSet s.frames f := hfr.trans (congrArg Prod.fst hmap)
    rw [show (mapPage s.frames (s.entry d (pdIdx (k * 4096)) (ptIdx (k * 4096))) 1 1 0).2 = _ from
      congrArg Prod.snd hmap] at hp
    obtain ⟨hable, hself, hother⟩ := h.puts hk hroom.here.1 hp (by rw [hbits, sz_set])
      (by rw [hbits, get_set hlt, h.zero, Bool.true_or])
    have hval : (s'.pageEntry d k).addr.val = f := by
      rw [hself]
      exact ofNat_val h20
    refine ⟨⟨hable, fun v hv hv' => ?_, fun v hv hv' _ => ?_, fun v w hv hv' hw hw' _ _ _ => ?_,
      fun v hv hv' hne => ?_, fun v hv ho => hother v hv (by omega), by rw [hbits, sz_set],
      fun g => ?_⟩, hbits ▸ length_freeFrames_bsSet hlt, hp.ne, htable, hroom⟩
    · rw [hone hv hv', hself]
      rfl
    · obtain rfl := hone hv hv'
      exact ⟨fun e => hf0 (by rw [← hval, e]; rfl), hval ▸ hlt, hval ▸ hclr⟩
    · rw [hone hv hv', hone hw hw']
    · obtain rfl := hone hv hv'
      exact absurd ha hne
    · rw [hbits, get_set hlt, Bool.or_eq_true, decide_eq_true_eq]
      refine or_congr Iff.rfl ⟨?_, ?_⟩
      · rintro rfl
        exact ⟨k, le_rfl, by omega, ha, hval⟩
      · rintro ⟨v, hv, hv', -, he⟩
        rw [← he, hone hv hv', hval]
  · have hmap : mapPage s.frames (s.pageEntry d k) 1 1 0 =
        (s.frames, (s.pageEntry d k).attr 1 1) := mapPage_held ha
    have hbits : s'.frames = s.frames := hfr.trans (congrArg Prod.fst hmap)
    rw [show (mapPage s.frames (s.entry d (pdIdx (k * 4096)) (ptIdx (k * 4096))) 1 1 0).2 = _ from
      congrArg Prod.snd hmap] at hp
    obtain ⟨hable, hself, hother⟩ := h.puts hk hroom.here.1 hp (by rw [hbits])
      (by rw [hbits, h.zero])
    refine ⟨⟨hable, fun v hv hv' => ?_, fun v hv hv' hf => ?_, fun v w hv hv' hw hw' _ _ _ => ?_,
      fun v hv hv' _ => ?_, fun v hv ho => hother v hv (by omega), by rw [hbits], fun g => ?_⟩,
      by rw [hbits]; omega, hp.ne, htable, hroom⟩
    · rw [hone hv hv', hself]
      rfl
    · obtain rfl := hone hv hv'
      exact absurd hf ha
    · rw [hone hv hv', hone hw hw']
    · rw [hone hv hv', hself]
      rfl
    · rw [hbits]
      refine ⟨.inl, fun hg => hg.resolve_right ?_⟩
      rintro ⟨v, hv, hv', hf, -⟩
      obtain rfl := hone hv hv'
      exact ha hf

/-! ## The loop -/

/-- The pages without a frame are counted one by one. -/
lemma length_unbacked_succ :
    (s.unbacked d k (n + 1)).length = (s.unbacked d k 1).length + (s.unbacked d (k + 1) n).length := by
  have hsplit : List.range' k (n + 1) = List.range' k 1 ++ List.range' (k + 1) n := by
    rw [Nat.add_comm n 1, ← List.range'_append_1]
  rw [State.unbacked, hsplit, List.filter_append, List.length_append]
  rfl

/-- The pages that are still to come are as they were. -/
lemma StackMapped.unbacked (h : StackMapped s s' d k 1) (hk : k + 1 + n ≤ 1048576) :
    s'.unbacked d (k + 1) n = s.unbacked d (k + 1) n := by
  refine List.filter_congr fun v hv => ?_
  obtain ⟨hv, hv'⟩ := List.mem_range'_1.mp hv
  rw [h.outside v (by omega) (.inr hv)]

/-- Pages with one index in the directory need at most one table. -/
lemma card_newTabs_le_one (h : ∀ v, k ≤ v → v < k + n → pdIdx (v * 4096) = pdIdx (k * 4096)) :
    (s.newTabs d k n).card ≤ 1 := by
  have hidx : ∀ i ∈ s.newTabs d k n, i = pdIdx (k * 4096) := by
    intro i hi
    obtain ⟨-, -, v, hv, rfl⟩ := Finset.mem_filter.mp hi
    obtain ⟨hv, hv'⟩ := List.mem_range'_1.mp hv
    exact h v hv hv'
  exact Finset.card_le_one.mpr fun i hi j hj => (hidx i hi).trans (hidx j hj).symm

/-- A table that is missing for the first page is one of those that are made. -/
lemma missing_le_newTabs : s.missing d (pdIdx (k * 4096)) ≤ (s.newTabs d k (n + 1)).card := by
  unfold State.missing
  split
  · rename_i h0
    refine Finset.card_pos.mpr ⟨pdIdx (k * 4096), Finset.mem_filter.mpr ⟨Finset.mem_univ _, h0, k, ?_,
      rfl⟩⟩
    exact List.mem_range'_1.mpr ⟨le_rfl, by omega⟩
  · exact Nat.zero_le _

/-- A table that was created for the page `k` is not created again. -/
lemma card_newTabs (hne : (s'.dirs d).tables (pdIdx (k * 4096)) ≠ 0)
    (ht : ∀ j, j ≠ pdIdx (k * 4096) → (s'.dirs d).tables j = (s.dirs d).tables j) :
    (s'.newTabs d (k + 1) n).card + s.missing d (pdIdx (k * 4096)) ≤
      (s.newTabs d k (n + 1)).card := by
  have hsub : s'.newTabs d (k + 1) n ⊆ (s.newTabs d k (n + 1)).erase (pdIdx (k * 4096)) := by
    intro j hj
    obtain ⟨-, h0, v, hv, rfl⟩ := Finset.mem_filter.mp hj
    have hjk : pdIdx (v * 4096) ≠ pdIdx (k * 4096) := fun e => hne (e ▸ h0)
    obtain ⟨hv, hv'⟩ := List.mem_range'_1.mp hv
    refine Finset.mem_erase.mpr ⟨hjk, Finset.mem_filter.mpr ⟨Finset.mem_univ _, ht _ hjk ▸ h0, v, ?_,
      rfl⟩⟩
    exact List.mem_range'_1.mpr ⟨by omega, by omega⟩
  have hcard := Finset.card_le_card hsub
  have hmiss := missing_le_newTabs (s := s) (d := d) (k := k) (n := n)
  by_cases h0 : (s.dirs d).tables (pdIdx (k * 4096)) = 0
  · have hmem : pdIdx (k * 4096) ∈ s.newTabs d k (n + 1) :=
      Finset.mem_filter.mpr ⟨Finset.mem_univ _, h0, k, List.mem_range'_1.mpr ⟨le_rfl, by omega⟩, rfl⟩
    rw [Finset.card_erase_of_mem hmem] at hcard
    rw [State.missing, if_pos h0] at hmiss ⊢
    omega
  · have hle := Finset.card_erase_le (s := s.newTabs d k (n + 1)) (a := pdIdx (k * 4096))
    rw [State.missing, if_neg h0]
    omega

/-- The loop while `n` pages from `k` on are left. -/
lemma stackLoop_maps (start sz : Nat) {fuel m : Nat} (h : Stackable s d) (hk : k + n < 1048576)
    (hin : ∀ v < k + n, v * 4096 < u32 (start + sz)) (hend : u32 (start + sz) ≤ (k + n) * 4096)
    (hfuel : n < fuel) (hfree : (s.unbacked d k n).length ≤ (freeFrames s.frames).length)
    (htabs : (s.newTabs d k n).card ≤ m) (hr : s.Room kmallocAp P m) :
    ∃ s', State.stackLoop kmallocAp start sz d fuel (k * 4096) s = .ok s' ∧
      StackMapped s s' d k n ∧ s'.Room kmallocAp P 0 := by
  induction n generalizing k s fuel m with
  | zero =>
    obtain ⟨fuel, rfl⟩ := Nat.exists_eq_succ_of_ne_zero (by omega : fuel ≠ 0)
    exact ⟨s, by rw [State.stackLoop, if_neg (by omega)], .refl h, hr.mono (Nat.zero_le _)⟩
  | succ n ih =>
    obtain ⟨fuel, rfl⟩ := Nat.exists_eq_succ_of_ne_zero (by omega : fuel ≠ 0)
    have hmiss := missing_le_newTabs (s := s) (d := d) (k := k) (n := n)
    rw [length_unbacked_succ] at hfree
    obtain ⟨page, s₁, hrun, hone, hleft, hne, ht, hroom⟩ :=
      h.mapAt (k := k) (n := m - s.missing d (pdIdx (k * 4096))) (by omega) (hr.mono (by omega))
        (by omega)
    have hcard := card_newTabs (n := n) hne ht
    have hun := hone.unbacked (n := n) (by omega)
    obtain ⟨s', hloop, hrest, hroom'⟩ := ih (k := k + 1) hone.able (by omega)
      (fun v hv => hin v (by omega)) (hend.trans_eq (by ring)) (Nat.lt_of_succ_lt_succ hfuel) (by rw [hun]; omega)
      (by omega) hroom
    have hmap : StackMapped s s' d k (1 + n) := hone.trans hrest (by omega)
    rw [Nat.add_comm] at hmap
    refine ⟨s', ?_, hmap, hroom'⟩
    have hnext : u32 (k * 4096 + pgSz) = (k + 1) * 4096 := by
      rw [pgSz_eq, u32_eq (by omega)]
      ring
    rw [State.stackLoop, if_pos (hin k (by omega)), hrun]
    simp only [bind, Except.bind]
    rw [hnext, hloop]

/-- `allocate_stack` of a range that ends before the last page. -/
lemma allocateStack_spec {start sz m : Nat} (h : Stackable s d) (hstart : start % 4096 = 0)
    (hsz : start + sz ≤ 0xfffff000)
    (hfree : (s.unbacked d (start / 4096) ((sz + 4095) / 4096)).length ≤
      (freeFrames s.frames).length)
    (htabs : (s.newTabs d (start / 4096) ((sz + 4095) / 4096)).card ≤ m)
    (hr : s.Room kmallocAp P m) :
    ∃ s', s.allocateStack kmallocAp start sz d = .ok (start, s') ∧
      StackMapped s s' d (start / 4096) ((sz + 4095) / 4096) ∧ s'.Room kmallocAp P 0 := by
  have hend : u32 (start + sz) = start + sz := u32_eq (by omega)
  have hfuel : (sz + 4095) / 4096 < chainFuel := by
    rw [show chainFuel = 4294967295 + 1 from rfl]
    omega
  obtain ⟨s', hloop, hmap⟩ := stackLoop_maps start sz h (by omega)
    (fun v hv => by omega) (by omega) hfuel hfree htabs hr
  rw [show start / 4096 * 4096 = start by omega] at hloop
  exact ⟨s', bind_ok.mpr ⟨s', hloop, rfl⟩, hmap⟩

/-- The loop of `allocate_stack` keeps the tables that there are. -/
lemma keeps_stackLoop {start sz fuel i : Nat}
    (h : State.stackLoop kmallocAp start sz d fuel i s = .ok s') : Keeps s s' := by
  induction fuel generalizing i s with
  | zero => cases h
  | succ fuel ih =>
    rw [State.stackLoop] at h
    split at h
    · obtain ⟨⟨_, s₁⟩, h₁, h⟩ := bind_ok.mp h
      exact (keeps_mapAt h₁).trans (ih h)
    · cases h
      exact .refl

/-- `allocate_stack` keeps the tables that there are. -/
lemma keeps_allocateStack {start sz : Nat} {r : Nat × State σ}
    (h : s.allocateStack kmallocAp start sz d = .ok r) : Keeps s r.2 := by
  obtain ⟨s', hloop, h⟩ := bind_ok.mp h
  cases h
  exact keeps_stackLoop hloop

/-- `get_page` leaves the tables of other indices. -/
lemma getPage_table {va create dir e : Nat} {j : Fin 1024} (hj : pdIdx va ≠ j) :
    ((s.getPage kmallocAp va create dir).2.dirs e).tables j = (s.dirs e).tables j := by
  unfold State.getPage
  split
  · rfl
  · split
    · by_cases he : e = dir
      · rw [he]
        simp [State.setEntry, State.setDir, State.setTab, State.alloc, hj.symm]
      · simp [State.setEntry, State.setDir, State.setTab, State.alloc, he]
    · rfl

/-- The loop makes tables for the pages of the range only. -/
lemma stackLoop_table {start sz fuel i e : Nat} {j : Fin 1024} (hi : start ≤ i)
    (hend : start + sz ≤ 0xfffff000) (hj : ∀ v, start ≤ v → v < start + sz → pdIdx v ≠ j)
    (h : State.stackLoop kmallocAp start sz d fuel i s = .ok s') :
    (s'.dirs e).tables j = (s.dirs e).tables j := by
  have hu : u32 (start + sz) = start + sz := u32_eq (by omega)
  induction fuel generalizing i s with
  | zero => cases h
  | succ fuel ih =>
    rw [State.stackLoop, hu] at h
    split at h
    · rename_i hlt
      obtain ⟨⟨_, s₁⟩, h₁, h⟩ := bind_ok.mp h
      have hnext : u32 (i + pgSz) = i + 4096 := u32_eq (by rw [pgSz_eq]; omega)
      refine (ih (by omega) h).trans ?_
      have hget := @getPage_table _ kmallocAp s i 1 d e j (hj i hi hlt)
      unfold State.mapAt at h₁
      split at h₁
      · rename_i hp
        rw [hp] at hget
        cases h₁
        exact hget
      · cases h₁
    · cases h
      rfl

/-- A range that reaches into the last page: the counter never gets past its end. -/
lemma stackLoop_diverges {start sz fuel i : Nat} (hi : i % 4096 = 0) (hi' : i < 4294967296)
    (hend : 0xfffff000 < u32 (start + sz)) :
    State.stackLoop kmallocAp start sz d fuel i s ≠ .ok s' := by
  induction fuel generalizing i s with
  | zero => exact nofun
  | succ fuel ih =>
    rw [State.stackLoop, if_pos (by omega)]
    intro h
    obtain ⟨⟨_, s₁⟩, -, h⟩ := bind_ok.mp h
    refine ih ?_ (u32_lt _) h
    unfold u32
    rw [pgSz_eq]
    omega

/-- `allocate_stack` of `sz` bytes from a page boundary on, with a free frame for every page of the
range that has none, and memory for the tables that are missing, returns and maps exactly the pages
that overlap the range, exactly when the last page of the address space is not one of them. -/
theorem allocateStack_maps_iff {start sz m : Nat} (h : Stackable s d) (hstart : start % 4096 = 0)
    (hsz : start + sz < 4294967296)
    (hfree : (s.unbacked d (start / 4096) ((sz + 4095) / 4096)).length ≤
      (freeFrames s.frames).length)
    (htabs : (s.newTabs d (start / 4096) ((sz + 4095) / 4096)).card ≤ m)
    (hr : s.Room kmallocAp P m) :
    (∃ s', s.allocateStack kmallocAp start sz d = .ok (start, s') ∧
      StackMapped s s' d (start / 4096) ((sz + 4095) / 4096)) ↔ start + sz ≤ 0xfffff000 := by
  have hend : u32 (start + sz) = start + sz := u32_eq hsz
  constructor
  · rintro ⟨s', hrun, -⟩
    by_contra hlt
    obtain ⟨s₁, hloop, -⟩ := bind_ok.mp hrun
    exact stackLoop_diverges hstart (by omega) (by omega) hloop
  · intro hle
    obtain ⟨s', hrun, hmap, -⟩ := allocateStack_spec h hstart hle hfree htabs hr
    exact ⟨s', hrun, hmap⟩

end

/-- The machine with one page can be given a stack. -/
lemma lowPage_stackable : Stackable lowPage 0xD0001000 where
  isDir := ⟨_, .tail _ (.head _), rfl, rfl⟩
  inv := lowPage_inv
  apart := by
    intro i j hij
    by_cases hi : i = 0
    · subst hi
      refine .inr ?_
      simp [lowPage, hij.symm]
    · exact .inl (if_neg hi)
  bits := by decide
  zero := by decide

/-- The machine with one page has a frame for another. -/
lemma lowPage_unbacked {k : Nat} :
    (lowPage.unbacked 0xD0001000 k 1).length ≤ (freeFrames lowPage.frames).length :=
  (List.length_filter_le ..).trans (by rw [List.length_range']; decide)

/-- One page of stack, in a table that is there. -/
theorem allocateStack_maps_iff_one :
    (∃ s', lowPage.allocateStack placement 0x2000 0x1000 0xD0001000 = .ok (0x2000, s') ∧
      StackMapped lowPage s' 0xD0001000 2 1) ↔ 0x2000 + 0x1000 ≤ 0xfffff000 := by
  have hroom : lowPage.Room placement (fun _ => True) 0 := ⟨⟨by decide, by decide⟩, fun _ _ => trivial⟩
  refine allocateStack_maps_iff (m := 0) lowPage_stackable (by decide) (by decide) lowPage_unbacked
    ?_ hroom
  refine (Finset.card_eq_zero.mpr (Finset.filter_eq_empty_iff.mpr ?_)).le
  rintro i - ⟨h0, v, hv, rfl⟩
  obtain ⟨hv, hv'⟩ := List.mem_range'_1.mp hv
  obtain rfl : v = 2 := by omega
  exact absurd h0 (by decide)

/-- One byte in the last page. -/
theorem allocateStack_last_page :
    Stackable lowPage 0xD0001000 ∧
      (lowPage.unbacked 0xD0001000 0xfffff 1).length ≤ (freeFrames lowPage.frames).length ∧
      lowPage.Room placement (fun _ => True) 1 ∧ (lowPage.newTabs 0xD0001000 0xfffff 1).card ≤ 1 ∧
      ∀ r, lowPage.allocateStack placement 0xfffff000 1 0xD0001000 ≠ .ok r := by
  refine ⟨lowPage_stackable, lowPage_unbacked, ⟨⟨by decide, by decide⟩, fun _ _ => trivial⟩, ?_, ?_⟩
  · refine card_newTabs_le_one fun v hv hv' => ?_
    obtain rfl : v = 0xfffff := by omega
    rfl
  · rintro r h
    obtain ⟨s', hloop, -⟩ := bind_ok.mp h
    exact stackLoop_diverges (by decide) (by decide) (by decide) hloop

end ToeS.Vmm
