import ToeS.Vmm.Slots

/-!
# Address-space copy

`copy_pg_dir` while the directory it copies is the current one. The frame of each page is mapped at
the scratch address of the directory being copied, filled, unmapped, which frees it, and mapped again
in the new directory, which takes it back. `Mid` is what holds between two pages: `Space` says what the
two directories have, `Store` what the bitset and the memory hold, both in terms of the list `c` of
the pages copied so far with their new frames.
-/

namespace ToeS.Vmm
open Lib Frames

variable {σ : Type}

/-- A page below `0xC0000000`: the index of its table and its index in that table. -/
abbrev Key := Fin 1024 × Fin 1024

namespace State

/-- The pages of the table with the index `i` that have a frame. -/
def rowPages (s : State σ) (d : Nat) (i : Fin 1024) (ps : List (Fin 1024)) : List Key :=
  (ps.filter fun p => (s.entry d i p).addr ≠ 0).map (i, ·)

/-- The pages below `0xC0000000` that have a frame. -/
def lowPages (s : State σ) (d : Nat) : List Key :=
  ((List.finRange 1024).take 768).flatMap fun i => s.rowPages d i (List.finRange 1024)

/-- The tables below `0xC0000000`. -/
def lowTabs (s : State σ) (d : Nat) (is : List (Fin 1024)) : Nat :=
  is.countP fun i => (s.dirs d).tables i ≠ 0

/-- Memory that is in no free frame, and in no frame of a page of `d` below `0xC0000000`. -/
def Clear (s : State σ) (d : Nat) (r : Region) : Prop :=
  ∀ x, r.Has x → (x / 4096 < bsGetSize s.frames → Frames.get s.frames (x / 4096) = true) ∧
    ∀ i p : Fin 1024, i.val < 768 → (s.entry d i p).addr ≠ 0 → (s.entry d i p).addr.val ≠ x / 4096

section
variable {s : State σ} {d : Nat} {i p : Fin 1024} {is ps : List (Fin 1024)}

/-- A page without a frame is not among the pages to copy. -/
lemma rowPages_cons_zero (ha : (s.entry d i p).addr = 0) :
    s.rowPages d i (p :: ps) = s.rowPages d i ps := by
  simp [rowPages, ha]

/-- A page with a frame is among the pages to copy. -/
lemma rowPages_cons (ha : (s.entry d i p).addr ≠ 0) :
    s.rowPages d i (p :: ps) = (i, p) :: s.rowPages d i ps := by
  simp [rowPages, ha]

/-- A slot without a table has no pages. -/
lemma rowPages_slot_zero (ht : (s.dirs d).tables i = 0) : s.rowPages d i ps = [] := by
  have hzero : ∀ p, s.entry d i p = Page.zero := fun p => if_pos ht
  simp [rowPages, hzero, Page.zero]

/-- An index without a table does not count. -/
lemma lowTabs_cons_zero (ht : (s.dirs d).tables i = 0) : s.lowTabs d (i :: is) = s.lowTabs d is := by
  simp [lowTabs, ht]

/-- An index with a table counts. -/
lemma lowTabs_cons (ht : (s.dirs d).tables i ≠ 0) : s.lowTabs d (i :: is) = 1 + s.lowTabs d is := by
  simp [lowTabs, ht, Nat.add_comm]

end

end State

/-- The free frames whose number has 20 bits. -/
def freeFrames (bs : BitSet) : List Nat :=
  (List.range (min (bsGetSize bs) 1048576)).filter fun f => Frames.get bs f = false

/-- What is asked of the directory that is copied: it is the current one, every page below
`0xC0000000` that has a frame is present and its frame is marked as used, the scratch page is
unmapped, and its table is not one of the tables below `0xC0000000`. -/
structure Copyable (s : State σ) (dir : Nat) : Prop where
  cur : s.currentDir = dir
  isDir : s.IsDir dir
  kern : s.IsDir s.kernDir
  inv : Inv s
  bits : s.frames.sz * 32 < 4294967296
  zero : Frames.get s.frames 0 = true
  scratch : (s.entry dir 896 0).addr = 0 ∧ (s.entry dir 896 0).present = false
  apart : ∀ i : Fin 1024, i.val < 768 → s.Sep (dir, 896) (dir, i)
  present : ∀ i p : Fin 1024, i.val < 768 → (s.entry dir i p).addr ≠ 0 →
    (s.entry dir i p).present = true
  held : ∀ i p : Fin 1024, i.val < 768 → (s.entry dir i p).addr ≠ 0 →
    Frames.get s.frames (s.entry dir i p).addr = true

/-- `new` is a copy of the directory `dir`, made on the way from `s` to `s'`. -/
structure Copied (s s' : State σ) (dir new : Nat) : Prop where
  isDir : s'.IsDir new
  inv : Inv s'
  /-- A page below `0xC0000000` that has a frame is present in the copy, with a frame that was free. -/
  present : ∀ i p : Fin 1024, i.val < 768 → (s.entry dir i p).addr ≠ 0 →
    (s'.entry new i p).present = true ∧ (s'.entry new i p).addr.val < bsGetSize s.frames ∧
      Frames.get s.frames (s'.entry new i p).addr = false
  /-- Distinct pages have distinct frames. -/
  distinct : ∀ i p j q : Fin 1024, i.val < 768 → (s.entry dir i p).addr ≠ 0 →
    j.val < 768 → (s.entry dir j q).addr ≠ 0 →
    (s'.entry new i p).addr = (s'.entry new j q).addr → (i, p) = (j, q)
  /-- The bytes are equal. -/
  bytes : ∀ i p : Fin 1024, i.val < 768 → (s.entry dir i p).addr ≠ 0 → ∀ n < 4096,
    s'.physByte ((s'.entry new i p).addr * 4096 + n) =
      s'.physByte ((s.entry dir i p).addr * 4096 + n)
  /-- All other pages below `0xC0000000` are unmapped. -/
  unmapped : ∀ i p : Fin 1024, i.val < 768 → (s.entry dir i p).addr = 0 →
    s'.entry new i p = Page.zero
  /-- There is no table without such a page. -/
  tables : ∀ i : Fin 1024, i.val < 768 → (s'.dirs new).tables i ≠ 0 →
    ∃ p, (s.entry dir i p).addr ≠ 0
  /-- The other half is the kernel's. -/
  upper : ∀ i : Fin 1024, 768 ≤ i.val → (s'.dirs new).tables i = (s'.dirs s.kernDir).tables i ∧
    (s'.dirs new).physTabs i = (s'.dirs s.kernDir).physTabs i
  /-- The directory that was copied has the same pages with the same bytes. -/
  pages : ∀ i p : Fin 1024, i.val < 768 → s'.entry dir i p = s.entry dir i p
  kept : ∀ i p : Fin 1024, i.val < 768 → (s.entry dir i p).addr ≠ 0 → ∀ n < 4096,
    s'.physByte ((s.entry dir i p).addr * 4096 + n) = s.physByte ((s.entry dir i p).addr * 4096 + n)
  scratch : (s'.entry dir 896 0).addr = 0 ∧ (s'.entry dir 896 0).present = false
  cur : s'.currentDir = dir
  kern : s'.kernDir = s.kernDir
  /-- The used frames are the old ones and the new ones. -/
  sz : s'.frames.sz = s.frames.sz
  frames : ∀ f, Frames.get s'.frames f = true ↔ Frames.get s.frames f = true ∨
    ∃ i p : Fin 1024, i.val < 768 ∧ (s.entry dir i p).addr ≠ 0 ∧ (s'.entry new i p).addr.val = f

/-! ## The invariant -/

/-- What the two directories have when the pages `c` have been copied. -/
structure Space (s₀ : State σ) (dir new : Nat) (c : List (Key × Nat)) (s : State σ) : Prop where
  inv : Inv s
  log : s₀.log <:+ s.log
  cur : s.currentDir = dir
  kern : s.kernDir = s₀.kernDir
  isDir : s.IsDir dir
  isNew : s.IsDir new
  ne : new ≠ dir
  low : ∀ i p : Fin 1024, i.val < 768 → s.entry dir i p = s₀.entry dir i p
  lowTab : ∀ i : Fin 1024, i.val < 768 → (s.dirs dir).tables i = (s₀.dirs dir).tables i
  scratch : (s.entry dir 896 0).addr = 0 ∧ (s.entry dir 896 0).present = false
  apart : ∀ i : Fin 1024, i.val < 768 → s.Sep (dir, 896) (dir, i)
  newApart : ∀ j b, b.1 = dir ∨ b.1 = new → b ≠ (new, j) → s.Sep (new, j) b
  newUpper : ∀ i : Fin 1024, 768 ≤ i.val → (s.dirs new).tables i = 0
  newLow : ∀ i : Fin 1024, i.val < 768 → (s.dirs new).tables i ≠ 0 →
    ∃ p, (s₀.entry dir i p).addr ≠ 0
  keys : ∀ k f, (k, f) ∈ c → k.1.val < 768 ∧ (s₀.entry dir k.1 k.2).addr ≠ 0
  done : ∀ k f, (k, f) ∈ c → s.entry new k.1 k.2 = .copied f
  rest : ∀ i p : Fin 1024, i.val < 768 → (i, p) ∉ c.map Prod.fst → s.entry new i p = Page.zero

/-- What the bitset and the memory hold when the pages `c` have been copied. -/
structure Store (s₀ : State σ) (dir : Nat) (c : List (Key × Nat)) (s : State σ) : Prop where
  sz : s.frames.sz = s₀.frames.sz
  bits : ∀ f, Frames.get s.frames f = true ↔ Frames.get s₀.frames f = true ∨ f ∈ c.map Prod.snd
  fresh : ∀ f ∈ c.map Prod.snd, Frames.get s₀.frames f = false ∧ f < bsGetSize s₀.frames ∧
    f < 1048576
  nodup : (c.map Prod.snd).Nodup
  ram : ∀ x, x / 4096 ∉ c.map Prod.snd → s.ram x = s₀.ram x
  bytes : ∀ k f, (k, f) ∈ c → ∀ n < 4096,
    s.ram (f * 4096 + n) = s₀.ram ((s₀.entry dir k.1 k.2).addr * 4096 + n)

section
variable {s₀ s s' : State σ} {dir new : Nat} {c : List (Key × Nat)} {i p : Fin 1024} {f : Nat}

/-- Both are directories. -/
lemma Space.isDir_of {d : Nat} (h : Space s₀ dir new c s) (hd : d = dir ∨ d = new) : s.IsDir d := by
  rcases hd with rfl | rfl
  · exact h.isDir
  · exact h.isNew

/-- Clearing the scratch entry changes nothing that counts. -/
lemma Space.unmapped (h : Space s₀ dir new c s) (hp : Puts s s' dir 896 0 Page.zero)
    (hf : Fresh s'.log) : Space s₀ dir new c s' := by
  have hlow : ∀ j : Fin 1024, j.val < 768 → (dir, j) ≠ (dir, (896 : Fin 1024)) := by
    rintro j hj e
    rw [(Prod.mk.inj e).2] at hj
    exact absurd hj (by decide)
  have hnew : ∀ j : Fin 1024, (new, j) ≠ (dir, (896 : Fin 1024)) :=
    fun j e => h.ne (Prod.mk.inj e).1
  have hentry : ∀ j q, s'.entry new j q = s.entry new j q := fun j q =>
    hp.entry new h.isNew j q (hnew j) (h.newApart j _ (.inl rfl) (hnew j).symm).symm
  refine ⟨hp.keeps.inv hf h.inv, h.log.trans hp.keeps.log, hp.keeps.cur.trans h.cur,
    hp.keeps.kern.trans h.kern, h.isDir.mono hp.keeps.log, h.isNew.mono hp.keeps.log, h.ne,
    fun j q hj => ?_, fun j hj => ?_, ?_, fun j hj => ?_, fun j b hb hne => ?_, fun j hj => ?_,
    fun j hj ht => ?_, h.keys, fun k f hk => ?_, fun j q hj hjq => ?_⟩
  · rw [hp.entry dir h.isDir j q (hlow j hj) (h.apart j hj), h.low j q hj]
  · rw [hp.table dir j (hlow j hj), h.lowTab j hj]
  · rw [hp.self]
    exact ⟨rfl, rfl⟩
  · exact hp.sep _ _ h.isDir h.isDir (hlow j hj).symm (h.apart j hj)
  · exact hp.sep _ _ h.isNew (h.isDir_of hb) hne.symm (h.newApart j b hb hne)
  · rw [hp.table new j (hnew j), h.newUpper j hj]
  · rw [hp.table new j (hnew j)] at ht
    exact h.newLow j hj ht
  · rw [hentry, h.done k f hk]
  · rw [hentry, h.rest j q hj hjq]

/-- An entry of the new directory adds a page. -/
lemma Space.mapped (h : Space s₀ dir new c s) (hp : Puts s s' new i p (.copied f))
    (hf : Fresh s'.log) (hi : i.val < 768) (ha : (s₀.entry dir i p).addr ≠ 0)
    (hc : (i, p) ∉ c.map Prod.fst) : Space s₀ dir new (c ++ [((i, p), f)]) s' := by
  have hold : ∀ j : Fin 1024, (dir, j) ≠ (new, i) := fun j e => h.ne (Prod.mk.inj e).1.symm
  have hentry : ∀ j q, s'.entry dir j q = s.entry dir j q := fun j q =>
    hp.entry dir h.isDir j q (hold j) (h.newApart i _ (.inl rfl) (hold j))
  have hother : ∀ j q, (j, q) ≠ (i, p) → s'.entry new j q = s.entry new j q := by
    intro j q hjq
    by_cases hj : j = i
    · subst hj
      exact hp.row q fun e => hjq (by rw [e])
    · have hne : (new, j) ≠ (new, i) := fun e => hj (Prod.mk.inj e).2
      exact hp.entry new h.isNew j q hne (h.newApart i _ (.inr rfl) hne)
  refine ⟨hp.keeps.inv hf h.inv, h.log.trans hp.keeps.log, hp.keeps.cur.trans h.cur,
    hp.keeps.kern.trans h.kern, h.isDir.mono hp.keeps.log, h.isNew.mono hp.keeps.log, h.ne,
    fun j q hj => ?_, fun j hj => ?_, ?_, fun j hj => ?_, fun j b hb hne => ?_, fun j hj => ?_,
    fun j hj ht => ?_, fun k g hk => ?_, fun k g hk => ?_, fun j q hj hjq => ?_⟩
  · rw [hentry, h.low j q hj]
  · rw [hp.table dir j (hold j), h.lowTab j hj]
  · rw [hentry]
    exact h.scratch
  · have hne : (dir, (896 : Fin 1024)) ≠ (dir, j) := by
      intro e
      rw [← (Prod.mk.inj e).2] at hj
      exact absurd hj (by decide)
    exact hp.sep _ _ h.isDir h.isDir hne (h.apart j hj)
  · exact hp.sep _ _ h.isNew (h.isDir_of hb) hne.symm (h.newApart j b hb hne)
  · rw [hp.table new j ?_, h.newUpper j hj]
    intro e
    rw [(Prod.mk.inj e).2] at hj
    omega
  · by_cases hji : j = i
    · exact ⟨p, hji ▸ ha⟩
    · rw [hp.table new j fun e => hji (Prod.mk.inj e).2] at ht
      exact h.newLow j hj ht
  · rcases List.mem_append.mp hk with hk | hk
    · exact h.keys k g hk
    · obtain ⟨rfl, rfl⟩ := Prod.mk.inj (List.mem_singleton.mp hk)
      exact ⟨hi, ha⟩
  · rcases List.mem_append.mp hk with hk | hk
    · rw [hother _ _ fun e => hc (List.mem_map.mpr ⟨(k, g), hk, e⟩), h.done k g hk]
    · obtain ⟨rfl, rfl⟩ := Prod.mk.inj (List.mem_singleton.mp hk)
      exact hp.self
  · rw [List.map_append, List.mem_append, not_or] at hjq
    rw [hother j q (by simpa using hjq.2), h.rest j q hj hjq.1]

/-- A frame that was free and now has the bytes of a page. -/
lemma Store.copied (h : Store s₀ dir c s) (hsz : s'.frames.sz = s.frames.sz)
    (hbits : ∀ k, Frames.get s'.frames k = true ↔ Frames.get s.frames k = true ∨ k = f)
    (hram : s'.ram = copiedTo s.ram (s₀.entry dir i p).addr f 4096)
    (hfree : Frames.get s.frames f = false) (hlt : f < bsGetSize s₀.frames) (h20 : f < 1048576)
    (hheld : Frames.get s₀.frames (s₀.entry dir i p).addr = true) :
    Store s₀ dir (c ++ [((i, p), f)]) s' := by
  have hnew : f ∉ c.map Prod.snd := fun hm => by
    rw [(h.bits f).mpr (.inr hm)] at hfree
    cases hfree
  have hfree₀ : Frames.get s₀.frames f = false := by
    by_contra hb
    rw [(h.bits f).mpr (.inl (by simpa using hb))] at hfree
    cases hfree
  have hsrc : (s₀.entry dir i p).addr.val ∉ c.map Prod.snd := fun hm => by
    rw [(h.fresh _ hm).1] at hheld
    cases hheld
  have hoff : ∀ x, x / 4096 ≠ f → s'.ram x = s.ram x := fun x hx => by
    rw [hram, copiedTo, if_neg (by omega)]
  refine ⟨hsz.trans h.sz, fun k => ?_, fun k hk => ?_, ?_, fun x hx => ?_, fun k g hk n hn => ?_⟩
  · rw [hbits, h.bits, List.map_append, List.mem_append, or_assoc]
    simp
  · rw [List.map_append, List.mem_append] at hk
    rcases hk with hk | hk
    · exact h.fresh k hk
    · obtain rfl := List.mem_singleton.mp hk
      exact ⟨hfree₀, hlt, h20⟩
  · rw [List.map_append, List.nodup_append]
    refine ⟨h.nodup, List.nodup_singleton _, fun a ha b hb => ?_⟩
    obtain rfl := List.mem_singleton.mp hb
    rintro rfl
    exact hnew ha
  · rw [List.map_append, List.mem_append, not_or] at hx
    rw [hoff x (by simpa using hx.2), h.ram x hx.1]
  · rcases List.mem_append.mp hk with hold | hself
    · have hg : g ≠ f := by
        rintro rfl
        exact hnew (List.mem_map.mpr ⟨(k, g), hold, rfl⟩)
      rw [hoff _ (by omega), h.bytes k g hold n hn]
    · obtain ⟨rfl, rfl⟩ := Prod.mk.inj (List.mem_singleton.mp hself)
      rw [hram, copiedTo, if_pos ⟨by omega, by omega⟩, Nat.add_sub_cancel_left]
      refine h.ram _ ?_
      rwa [show ((s₀.entry dir i p).addr.val * 4096 + n) / 4096 = (s₀.entry dir i p).addr by omega]

end

/-! ## One page -/

section
variable {kmallocAp : σ → Nat → Nat × Nat × σ} {P : Region → Prop} {s₀ s s' : State σ}
  {dir new : Nat} {c : List (Key × Nat)} {i p : Fin 1024} {f k : Nat}

/-- While pages are left for which there were frames, a frame is free. -/
lemma Store.exists_free (h : Store s₀ dir c s) (hc : c.length < (freeFrames s₀.frames).length) :
    ∃ f, f < bsGetSize s.frames ∧ f < 1048576 ∧ Frames.get s.frames f = false := by
  have hlen : (c.map Prod.snd).length < (freeFrames s₀.frames).length := by rwa [List.length_map]
  have hnodup : (freeFrames s₀.frames).Nodup := List.Nodup.filter _ List.nodup_range
  obtain ⟨f, hf, hfc⟩ : ∃ f ∈ freeFrames s₀.frames, f ∉ c.map Prod.snd := by
    by_contra hall
    push Not at hall
    exact absurd (List.Subperm.length_le (hnodup.subperm hall)) (by omega)
  obtain ⟨hr, hg⟩ := List.mem_filter.mp hf
  have hr := List.mem_range.mp hr
  refine ⟨f, ?_, by omega, ?_⟩
  · rw [bsGetSize, h.sz, ← bsGetSize]
    omega
  · by_contra hb
    rcases (h.bits f).mp (by simpa using hb) with hb | hb
    · simp [hb] at hg
    · exact hfc hb

/-- The frame that `get_frame` takes then. -/
lemma getFrame_free {bs : BitSet} (hs : bs.sz * 32 < 4294967296) (h0 : Frames.get bs 0 = true)
    (hf : ∃ f, f < bsGetSize bs ∧ f < 1048576 ∧ Frames.get bs f = false) :
    ∃ f, f ≠ 0 ∧ f < bsGetSize bs ∧ f < 1048576 ∧ Frames.get bs f = false ∧
      getFrame bs = (f * 4096, bsSet bs f) := by
  obtain ⟨g, hg, hg20, hgf⟩ := hf
  rcases getFrame_spec hs with ⟨-, hfull⟩ | ⟨f, hlt, hclr, hbelow, hrun⟩
  · rw [hfull g hg] at hgf
    cases hgf
  · have hfg : f ≤ g := by
      by_contra hlt
      rw [hbelow g (by omega)] at hgf
      cases hgf
    refine ⟨f, ?_, hlt, by omega, hclr, hrun (by omega)⟩
    rintro rfl
    rw [h0] at hclr
    cases hclr

/-- Up to `memcpy`, the body of the loop maps the frame `f` at the scratch address. -/
lemma copyPage_start (hI : Inv s) (hcur : s.currentDir = dir) (hd : s.IsDir dir)
    (hfree : (s.entry dir 896 0).addr = 0) (hrun : getFrame s.frames = (f * 4096, bsSet s.frames f))
    (h0 : f ≠ 0) (hf : f < bsGetSize s.frames)
    (hroom : s.Room kmallocAp P (s.missing dir 896 + k)) :
    ∃ s₁, Puts s s₁ dir 896 0 (.copied f) ∧ s₁.cr3 = (s₁.dirs dir).phys ∧
      s₁.frames = bsSet (bsSet s.frames f) f ∧ s₁.ram = s.ram ∧ s₁.Room kmallocAp P k ∧
      ∀ new i p, s.copyPage kmallocAp new i p = (do
        let s ← s₁.memcpy (idx2pg i p) (idx2pg 896 0) 4096
        let s := s.unmapPage ((s₁.dirs dir).tables 896, 0)
        let (_, s) ← s.mapAt kmallocAp (idx2pg i p) new (f * 4096)
        return s.switchPageDirectory s.currentDir) := by
  have hscr : pdIdx State.scratch = 896 ∧ ptIdx State.scratch = 0 := by decide
  -- `get_frame`
  obtain ⟨s₁, hs₁⟩ : ∃ s₁, s₁ = { s with frames := bsSet s.frames f } := ⟨_, rfl⟩
  have same₁ : SameTabs s s₁ := by
    rw [hs₁]
    exact ⟨rfl, rfl, rfl, rfl, rfl, rfl⟩
  have hfr₁ : s₁.frames = bsSet s.frames f := by rw [hs₁]
  have hram₁ : s₁.ram = s.ram := by rw [hs₁]
  have hroom₁ : s₁.Room kmallocAp P (s₁.missing dir 896 + k) := by
    rw [show s₁.missing dir 896 = s.missing dir 896 by rw [State.missing, State.missing, same₁.dirs]]
    exact hroom.congr same₁.heap same₁.log
  have hI₁ : Inv s₁ := same₁.keeps.inv (same₁.log ▸ hroom.here.1) hI
  -- the frame at the scratch address
  obtain ⟨s₂, hmap₂, hput₂, hfr₂, hram₂, hroom₂⟩ := mapAt_spec (f := f) State.scratch hI₁
    (same₁.isDir hd) (by rw [hscr.1]; exact hroom₁)
    (by rw [hscr.1, hscr.2, same₁.entry]; exact hfree) h0 (by rw [hfr₁, bsGetSize_set]; exact hf)
  rw [hscr.1, hscr.2] at hmap₂ hput₂
  have hcur₂ : s₂.currentDir = dir := (hput₂.keeps.cur.trans same₁.cur).trans hcur
  obtain ⟨s₃, hs₃⟩ : ∃ s₃, s₃ = s₂.switchPageDirectory s₂.currentDir := ⟨_, rfl⟩
  have same₃ : SameTabs s₂ s₃ := by
    rw [hs₃]
    exact ⟨rfl, rfl, rfl, rfl, rfl, rfl⟩
  refine ⟨s₃, (same₁.puts hput₂).same same₃, ?_, ?_, ?_, hroom₂.congr same₃.heap same₃.log,
    fun new i p => ?_⟩
  · rw [same₃.dirs, hs₃, ← hcur₂]
    rfl
  · rw [← hfr₁, ← hfr₂, hs₃]
    rfl
  · rw [← hram₁, ← hram₂, hs₃]
    rfl
  · have hmap : ({ s with frames := bsSet s.frames f } : State σ).mapAt kmallocAp State.scratch
        s.currentDir (f * 4096) = .ok (((s₂.dirs dir).tables 896, 0), s₂) := by
      rw [← hmap₂, ← hcur, hs₁]
    have hdst : State.scratch = idx2pg 896 0 := by decide
    simp only [State.copyPage, hrun]
    rw [hmap, ok_bind, same₃.dirs, hs₃, hdst, pgSz_eq]

/-- After `memcpy`, the body of the loop frees the frame, which leaves the scratch page unmapped, and
maps it in the new directory. -/
lemma copyPage_finish {s₁ : State σ} (hI : Inv s) (hd : s.IsDir dir) (hn : s.IsDir new)
    (hne : new ≠ dir) (hapart : s.Sep (dir, 896) (new, i))
    (hp₁ : Puts s s₁ dir 896 0 (.copied f)) (hfr₁ : s₁.frames = bsSet (bsSet s.frames f) f)
    (h0 : f ≠ 0) (hf : f < bsGetSize s.frames) (h20 : f < 1048576)
    (hclr : Frames.get s.frames f = false)
    (hroom : s₁.Room kmallocAp P (s.missing new i + k)) :
    ∃ s₂ s', (do
        let s := s₁.unmapPage ((s₁.dirs dir).tables 896, 0)
        let (_, s) ← s.mapAt kmallocAp (idx2pg i p) new (f * 4096)
        return s.switchPageDirectory s.currentDir) = Except.ok s' ∧
      Puts s s₂ dir 896 0 Page.zero ∧
      Puts s₂ s' new i p (mapPage s₂.frames (s.entry new i p) 1 1 (f * 4096)).2 ∧
      s₂.frames.sz = s.frames.sz ∧ (∀ j, Frames.get s₂.frames j = Frames.get s.frames j) ∧
      s'.frames = (mapPage s₂.frames (s.entry new i p) 1 1 (f * 4096)).1 ∧ s'.ram = s₁.ram ∧
      s'.Room kmallocAp P k := by
  have hni : (new, i) ≠ (dir, (896 : Fin 1024)) := fun e => hne (Prod.mk.inj e).1
  have hself₁ : (s₁.entry dir 896 0).addr.val = f := by
    rw [hp₁.self]
    exact Nat.mod_eq_of_lt h20
  obtain ⟨hput₂, hfr₂, hram₂⟩ := unmapPage_spec (s := s₁) hp₁.ne
    (p := 0) (fun e => h0 (by rw [← hself₁, e]; rfl))
  obtain ⟨s₂, hs₂⟩ : ∃ s₂, s₂ = s₁.unmapPage ((s₁.dirs dir).tables 896, 0) := ⟨_, rfl⟩
  rw [← hs₂] at hput₂ hfr₂ hram₂
  have put₂ : Puts s s₂ dir 896 0 Page.zero := hp₁.trans hput₂ hd
  have hroom₂ : s₂.Room kmallocAp P (s₂.missing new i + k) := by
    have hmiss : s₂.missing new i = s.missing new i := by
      rw [State.missing, State.missing, put₂.table new i hni]
    rw [hmiss]
    exact hroom.congr (by rw [hs₂]; rfl) (by rw [hs₂]; rfl)
  have hentry₂ : s₂.entry new i p = s.entry new i p := put₂.entry new hn i p hni hapart
  have hbits₂ : ∀ j, Frames.get s₂.frames j = Frames.get s.frames j := by
    intro j
    rw [hfr₂, hself₁, hfr₁, get_clr (by simpa using hf), get_set (by simpa using hf), get_set hf]
    by_cases hj : j = f
    · simp [hj, hclr]
    · simp [hj]
  have hsz₂ : s₂.frames.sz = s.frames.sz := by
    rw [hfr₂, hfr₁, sz_clr, sz_set, sz_set]
  -- the frame in the new directory
  have hpd : pdIdx (idx2pg i p) = i := by
    have h := pdIdx_idx2pg (i := i) (p := p) (n := 0) (by decide)
    rwa [Nat.add_zero, u32_eq idx2pg_lt] at h
  have hpt : ptIdx (idx2pg i p) = p := by
    have h := ptIdx_idx2pg (i := i) (p := p) (n := 0) (by decide)
    rwa [Nat.add_zero, u32_eq idx2pg_lt] at h
  obtain ⟨s₃, hmap₃, hput₃, hfr₃, hram₃, hroom₃⟩ := mapAt_puts (f * 4096)
    (put₂.keeps.inv hroom₂.here.1 hI) (hn.mono put₂.keeps.log)
    (show s₂.Room kmallocAp P (s₂.missing new (pdIdx (idx2pg i p)) + k) by rw [hpd]; exact hroom₂)
  rw [hpd, hpt, hentry₂] at hput₃ hfr₃
  rw [hpd, hpt] at hmap₃
  obtain ⟨s', hs'⟩ : ∃ s', s' = s₃.switchPageDirectory s₃.currentDir := ⟨_, rfl⟩
  have same' : SameTabs s₃ s' := by
    rw [hs']
    exact ⟨rfl, rfl, rfl, rfl, rfl, rfl⟩
  refine ⟨s₂, s', ?_, put₂, hput₃.same same', hsz₂, hbits₂, ?_, ?_, hroom₃.congr same'.heap same'.log⟩
  · simp only [← hs₂, hmap₃, ok_bind]
    rw [hs']
    rfl
  · rw [← hfr₃, hs']
    rfl
  · rw [← hram₂, ← hram₃, hs']
    rfl

/-- The body of the loop, for the frame `f`. -/
lemma copyPage_spec {a : Nat} (hI : Inv s) (hcur : s.currentDir = dir) (hd : s.IsDir dir)
    (hn : s.IsDir new) (hne : new ≠ dir) (hapart : ∀ j, s.Sep (dir, 896) (new, j))
    (hi : i.val < 768) (hsep : s.Sep (dir, 896) (dir, i))
    (hfree : (s.entry dir 896 0).addr = 0) (hnew : s.entry new i p = Page.zero)
    (hsp : (s.entry dir i p).present = true) (hsa : (s.entry dir i p).addr.val = a)
    (hrun : getFrame s.frames = (f * 4096, bsSet s.frames f)) (h0 : f ≠ 0) (haf : a ≠ f)
    (hf : f < bsGetSize s.frames) (h20 : f < 1048576) (hclr : Frames.get s.frames f = false)
    (hoff : ∀ log, Fresh log ∧ (∀ r ∈ log, P r) → Off log a ∧ Off log f)
    (hroom : s.Room kmallocAp P (s.missing dir 896 + (s.missing new i + k))) :
    ∃ s₁ s', s.copyPage kmallocAp new i p = .ok s' ∧ Puts s s₁ dir 896 0 Page.zero ∧
      Puts s₁ s' new i p (.copied f) ∧ s'.frames.sz = s.frames.sz ∧
      (∀ j, Frames.get s'.frames j = true ↔ Frames.get s.frames j = true ∨ j = f) ∧
      s'.ram = copiedTo s.ram a f 4096 ∧ s'.Room kmallocAp P k := by
  have hsi : (dir, i) ≠ (dir, (896 : Fin 1024)) := by
    intro e
    rw [(Prod.mk.inj e).2] at hi
    exact absurd hi (by decide)
  obtain ⟨s₁, hput₁, hcr3, hfr₁, hram₁, hroom₁, hcopyPage⟩ :=
    copyPage_start hI hcur hd hfree hrun h0 hf hroom
  -- `memcpy`
  have hcopy := memcpy_spec (i := i) (p := p) (j := 896) (q := 0) (a := a) (f := f)
    (hput₁.keeps.inv hroom₁.here.1 hI) hroom₁.here.1 (hd.mono hput₁.keeps.log) hcr3
    (by rw [hput₁.entry dir hd i p hsi hsep]; exact hsp)
    (by rw [hput₁.entry dir hd i p hsi hsep]; exact hsa) (by rw [hput₁.self]; rfl)
    (by rw [hput₁.self]; exact Nat.mod_eq_of_lt h20) haf (hoff _ hroom₁.here).1
    (hoff _ hroom₁.here).2 (le_refl 4096)
  obtain ⟨s₂, hs₂⟩ : ∃ s₂, s₂ = { s₁ with ram := copiedTo s₁.ram a f 4096 } := ⟨_, rfl⟩
  have same₂ : SameTabs s₁ s₂ := by
    rw [hs₂]
    exact ⟨rfl, rfl, rfl, rfl, rfl, rfl⟩
  have hram₂ : s₂.ram = copiedTo s.ram a f 4096 := by rw [hs₂, hram₁]
  obtain ⟨s₃, s', hrest, hput₃, hput', hsz₃, hbits₃, hfr', hram', hroom'⟩ :=
    copyPage_finish (i := i) (p := p) hI hd hn hne (hapart i) (hput₁.same same₂)
      (hfr₁ ▸ by rw [hs₂]) h0 hf h20 hclr (hroom₁.congr same₂.heap same₂.log)
  have hmap : mapPage s₃.frames (s.entry new i p) 1 1 (f * 4096) = (bsSet s₃.frames f, .copied f) := by
    rw [hnew, mapPage_at rfl h0 (by rw [bsGetSize, hsz₃]; exact hf)]
    rfl
  rw [hmap] at hput' hfr'
  refine ⟨s₃, s', ?_, hput₃, hput', ?_, fun j => ?_, hram'.trans hram₂, hroom'⟩
  · rw [hcopyPage, hcopy, ← hs₂, ← same₂.dirs]
    exact hrest
  · rw [hfr', sz_set, hsz₃]
  · rw [hfr', get_set (by rw [bsGetSize, hsz₃]; exact hf), Bool.or_eq_true, hbits₃,
      decide_eq_true_iff]

/-- The invariant of the loops. -/
structure Mid (s₀ : State σ) (dir new : Nat) (c : List (Key × Nat)) (s : State σ) : Prop where
  space : Space s₀ dir new c s
  store : Store s₀ dir c s

/-- Memory that is clear of free frames and low pages holds no page that is copied, before or after. -/
lemma clear_off {log : List Region} (hlog : ∀ r ∈ log, s₀.Clear dir r) (hi : i.val < 768)
    (ha : (s₀.entry dir i p).addr ≠ 0) : Off log (s₀.entry dir i p).addr :=
  fun r hr x hx e => ((hlog r hr x hx).2 i p hi ha) e.symm

/-- A frame that was free holds no table. -/
lemma clear_off_free {log : List Region} (hlog : ∀ r ∈ log, s₀.Clear dir r)
    (hf : f < bsGetSize s₀.frames) (hfree : Frames.get s₀.frames f = false) : Off log f := by
  rintro r hr x hx rfl
  rw [(hlog r hr x hx).1 hf] at hfree
  cases hfree

/-- One page more. -/
lemma Mid.copyPage (hC : Copyable s₀ dir) (hm : Mid s₀ dir new c s) (hi : i.val < 768)
    (ha : (s₀.entry dir i p).addr ≠ 0) (hip : (i, p) ∉ c.map Prod.fst)
    (hc : c.length < (freeFrames s₀.frames).length) (hP : ∀ r, P r → s₀.Clear dir r)
    (hroom : s.Room kmallocAp P (s.missing dir 896 + (s.missing new i + k))) :
    ∃ s' f, s.copyPage kmallocAp new i p = .ok s' ∧ Mid s₀ dir new (c ++ [((i, p), f)]) s' ∧
      s'.Room kmallocAp P (s'.missing dir 896 + (s'.missing new i + k)) := by
  obtain ⟨hsp, hst⟩ := hm
  have hsize : bsGetSize s.frames = bsGetSize s₀.frames := by rw [bsGetSize, hst.sz, ← bsGetSize]
  have hheld := hC.held i p hi ha
  obtain ⟨f, h0, hf, h20, hfree, hrun⟩ := getFrame_free (hst.sz ▸ hC.bits)
    ((hst.bits 0).mpr (.inl hC.zero)) (hst.exists_free hc)
  have haf : (s₀.entry dir i p).addr.val ≠ f := by
    intro e
    rw [← e, (hst.bits _).mpr (.inl hheld)] at hfree
    cases hfree
  have hfree₀ : Frames.get s₀.frames f = false := by
    by_contra hb
    rw [(hst.bits f).mpr (.inl (by simpa using hb))] at hfree
    cases hfree
  have hnew : ∀ j : Fin 1024, (new, j) ≠ (dir, (896 : Fin 1024)) :=
    fun j e => hsp.ne (Prod.mk.inj e).1
  obtain ⟨s₁, s', hok, hput₁, hput', hsz, hbits, hram, hroom'⟩ := copyPage_spec (P := P)
    (a := (s₀.entry dir i p).addr) hsp.inv hsp.cur hsp.isDir hsp.isNew hsp.ne
    (fun j => (hsp.newApart j _ (.inl rfl) (hnew j).symm).symm) hi (hsp.apart i hi) hsp.scratch.1
    (hsp.rest i p hi hip) (by rw [hsp.low i p hi]; exact hC.present i p hi ha)
    (by rw [hsp.low i p hi]) hrun h0 haf hf h20 hfree
    (fun log hlog => ⟨clear_off (fun r hr => hP r (hlog.2 r hr)) hi ha,
      clear_off_free (fun r hr => hP r (hlog.2 r hr)) (hsize ▸ hf) hfree₀⟩) hroom
  have hfresh : Fresh s'.log := hroom'.here.1
  have hsp₁ := hsp.unmapped hput₁ (hfresh.suffix hput'.keeps.log)
  refine ⟨s', f, hok, ⟨hsp₁.mapped hput' hfresh hi ha hip,
    hst.copied hsz hbits hram hfree (hsize ▸ hf) h20 hheld⟩, ?_⟩
  have hdir : s'.missing dir 896 = 0 := by
    refine if_neg ?_
    rw [hput'.table dir 896 fun e => hsp.ne (Prod.mk.inj e).1.symm]
    exact hput₁.ne
  have hrow : s'.missing new i = 0 := if_neg hput'.ne
  rw [hdir, hrow, Nat.zero_add, Nat.zero_add]
  exact hroom'

/-- The loop over the pages of a table. -/
lemma Mid.row (hC : Copyable s₀ dir) (hi : i.val < 768) (ht : (s₀.dirs dir).tables i ≠ 0)
    {ps : List (Fin 1024)} (hps : ps.Nodup) (hm : Mid s₀ dir new c s)
    (hdisj : ∀ p ∈ ps, (i, p) ∉ c.map Prod.fst)
    (hc : c.length + (s₀.rowPages dir i ps).length ≤ (freeFrames s₀.frames).length)
    (hP : ∀ r, P r → s₀.Clear dir r)
    (hroom : s.Room kmallocAp P (s.missing dir 896 + (s.missing new i + k))) :
    ∃ s' c', exec (fun s p => if (s.tabs ((s₀.dirs dir).tables i) p).addr ≠ 0 then
        s.copyPage kmallocAp new i p else .ok s) s ps = .ok s' ∧
      c'.map Prod.fst = c.map Prod.fst ++ s₀.rowPages dir i ps ∧ Mid s₀ dir new c' s' ∧
      s'.Room kmallocAp P (s'.missing dir 896 + (s'.missing new i + k)) := by
  induction ps generalizing s c with
  | nil => exact ⟨s, c, rfl, by simp [State.rowPages], hm, hroom⟩
  | cons p ps ih =>
    obtain ⟨hp, hps⟩ := List.nodup_cons.mp hps
    have htab : s.tabs ((s₀.dirs dir).tables i) p = s₀.entry dir i p := by
      rw [← hm.space.low i p hi, State.entry_of_ne (by rwa [hm.space.lowTab i hi]),
        hm.space.lowTab i hi]
    by_cases ha : (s₀.entry dir i p).addr = 0
    · rw [State.rowPages_cons_zero ha] at hc ⊢
      have hskip : (if (s.tabs ((s₀.dirs dir).tables i) p).addr ≠ 0 then s.copyPage kmallocAp new i p
          else .ok s) = .ok s := by simp [htab, ha]
      rw [exec_cons hskip]
      exact ih hps hm (fun q hq => hdisj q (List.mem_cons_of_mem _ hq)) hc hroom
    · have hrow : s₀.rowPages dir i (p :: ps) = (i, p) :: s₀.rowPages dir i ps := State.rowPages_cons ha
      rw [hrow, List.length_cons] at hc
      obtain ⟨s₁, f, hok, hm₁, hroom₁⟩ :=
        hm.copyPage hC hi ha (hdisj p (by simp)) (by omega) hP hroom
      have hdisj₁ : ∀ q ∈ ps, (i, q) ∉ (c ++ [((i, p), f)]).map Prod.fst := by
        intro q hq hmem
        rw [List.map_append, List.mem_append] at hmem
        rcases hmem with hmem | hmem
        · exact hdisj q (List.mem_cons_of_mem _ hq) hmem
        · have hqp : q = p := by simpa using hmem
          exact hp (hqp ▸ hq)
      obtain ⟨s', c', hrun, hkeys, h'⟩ := ih hps hm₁ hdisj₁
        (by rw [List.length_append, List.length_singleton]; omega) hroom₁
      refine ⟨s', c', ?_, ?_, h'⟩
      · have hcopy : (if (s.tabs ((s₀.dirs dir).tables i) p).addr ≠ 0 then
            s.copyPage kmallocAp new i p else .ok s) = .ok s₁ := by simp [htab, ha, hok]
        rw [exec_cons hcopy, hrun]
      · rw [hkeys, hrow]
        simp

/-- The loop over the tables. -/
lemma Mid.rows_of (hC : Copyable s₀ dir) {is : List (Fin 1024)} {n : Nat} (his : is.Nodup)
    (hlow : ∀ i ∈ is, i.val < 768) (hm : Mid s₀ dir new c s)
    (hdisj : ∀ i ∈ is, ∀ p, (i, p) ∉ c.map Prod.fst)
    (hc : c.length + (is.flatMap fun i => s₀.rowPages dir i (List.finRange 1024)).length ≤
      (freeFrames s₀.frames).length)
    (hn : s₀.lowTabs dir is ≤ n) (hP : ∀ r, P r → s₀.Clear dir r)
    (hroom : s.Room kmallocAp P (s.missing dir 896 + n)) :
    ∃ s' c', exec (State.copyTab kmallocAp dir new) s is = .ok s' ∧
      c'.map Prod.fst =
        c.map Prod.fst ++ is.flatMap (fun i => s₀.rowPages dir i (List.finRange 1024)) ∧
      Mid s₀ dir new c' s' ∧ s'.Room kmallocAp P 0 := by
  induction is generalizing s c n with
  | nil => exact ⟨s, c, rfl, by simp, hm, hroom.mono (Nat.zero_le _)⟩
  | cons i is ih =>
    obtain ⟨hni, his⟩ := List.nodup_cons.mp his
    have hi : i.val < 768 := hlow i (by simp)
    have htab : (s.dirs dir).tables i = (s₀.dirs dir).tables i := hm.space.lowTab i hi
    rw [List.flatMap_cons, List.length_append] at hc
    have hrest : ∀ {s₁ c₁ m}, s.copyTab kmallocAp dir new i = .ok s₁ →
        c₁.map Prod.fst = c.map Prod.fst ++ s₀.rowPages dir i (List.finRange 1024) →
        Mid s₀ dir new c₁ s₁ → s₀.lowTabs dir is ≤ m →
        s₁.Room kmallocAp P (s₁.missing dir 896 + m) →
        ∃ s' c', exec (State.copyTab kmallocAp dir new) s (i :: is) = .ok s' ∧
          c'.map Prod.fst = c.map Prod.fst ++
            (i :: is).flatMap (fun i => s₀.rowPages dir i (List.finRange 1024)) ∧
          Mid s₀ dir new c' s' ∧ s'.Room kmallocAp P 0 := by
      intro s₁ c₁ m hok hkeys hm₁ hm hroom₁
      have hlen : c₁.length = c.length + (s₀.rowPages dir i (List.finRange 1024)).length := by
        have := congrArg List.length hkeys
        simpa using this
      have hdisj₁ : ∀ j ∈ is, ∀ p, (j, p) ∉ c₁.map Prod.fst := by
        intro j hj p hmem
        rw [hkeys, List.mem_append] at hmem
        rcases hmem with hmem | hmem
        · exact hdisj j (List.mem_cons_of_mem _ hj) p hmem
        · obtain ⟨q, -, he⟩ := List.mem_map.mp hmem
          exact hni ((Prod.mk.inj he).1 ▸ hj)
      obtain ⟨s', c', hrun, hkeys', h'⟩ := ih his (fun j hj => hlow j (List.mem_cons_of_mem _ hj))
        hm₁ hdisj₁ (by omega) hm hroom₁
      refine ⟨s', c', by rw [exec_cons hok, hrun], ?_, h'⟩
      rw [hkeys', hkeys, List.flatMap_cons, List.append_assoc]
    by_cases ht : (s₀.dirs dir).tables i = 0
    · rw [State.lowTabs_cons_zero ht] at hn
      refine hrest ?_ (by rw [State.rowPages_slot_zero ht, List.append_nil]) hm hn hroom
      rw [State.copyTab, htab, if_neg (not_not.mpr ht)]
    · have htabs : s₀.lowTabs dir (i :: is) = 1 + s₀.lowTabs dir is := State.lowTabs_cons ht
      have hmiss : s.missing new i ≤ 1 := State.missing_le_one
      obtain ⟨s₁, c₁, hrun, hkeys, hm₁, hroom₁⟩ := hm.row (k := n - 1) hC hi ht
        (List.nodup_finRange 1024) (fun p _ => hdisj i (by simp) p) (by omega) hP
        (hroom.mono (by omega))
      refine hrest ?_ hkeys hm₁ (by omega : s₀.lowTabs dir is ≤ n - 1) (hroom₁.mono (by omega))
      rw [State.copyTab, htab, if_pos ht]
      exact hrun

/-- The loop over the tables, in memory that is clear of the pages. -/
lemma Mid.rows (hC : Copyable s₀ dir) {is : List (Fin 1024)} {n : Nat} (his : is.Nodup)
    (hlow : ∀ i ∈ is, i.val < 768) (hm : Mid s₀ dir new c s)
    (hdisj : ∀ i ∈ is, ∀ p, (i, p) ∉ c.map Prod.fst)
    (hc : c.length + (is.flatMap fun i => s₀.rowPages dir i (List.finRange 1024)).length ≤
      (freeFrames s₀.frames).length)
    (hn : s₀.lowTabs dir is ≤ n) (hroom : s.Room kmallocAp (s₀.Clear dir) (s.missing dir 896 + n)) :
    ∃ s' c', exec (State.copyTab kmallocAp dir new) s is = .ok s' ∧
      c'.map Prod.fst =
        c.map Prod.fst ++ is.flatMap (fun i => s₀.rowPages dir i (List.finRange 1024)) ∧
      Mid s₀ dir new c' s' ∧ s'.Room kmallocAp (s₀.Clear dir) 0 :=
  hm.rows_of hC his hlow hdisj hc hn (fun _ => id) hroom

/-! ## The new directory -/

/-- An empty directory at an address of its own. -/
lemma newPgDir_spec (hf : Fresh (s.newPgDir kmallocAp).2.log) :
    ∃ new s', s.newPgDir kmallocAp = (new, s') ∧ Keeps s s' ∧ s'.IsDir new ∧
      (∀ d, s.IsDir d → new ≠ d) ∧ (∀ d, d ≠ new → s'.dirs d = s.dirs d) ∧
      (∀ j, (s'.dirs new).tables j = 0) ∧ s'.tabs = s.tabs ∧ s'.frames = s.frames ∧
      s'.ram = s.ram := by
  obtain ⟨r, s₁, hrs⟩ : ∃ r s₁, s.alloc kmallocAp .pgDir = (r, s₁) := ⟨_, _, rfl⟩
  have hobj : r.obj = .pgDir := by cases hrs; rfl
  have hs₁ : s₁ = { s with heap := s₁.heap, log := r :: s.log } := by cases hrs; rfl
  obtain ⟨s', hs'⟩ : ∃ s', s' = s₁.setDir r.addr { PgDir.zero with phys := r.phys } := ⟨_, rfl⟩
  have hnew : s.newPgDir kmallocAp = (r.addr, s') := by rw [State.newPgDir, hrs, hs']
  have hkeeps : Keeps s (s.newPgDir kmallocAp).2 := keeps_newPgDir
  rw [hnew] at hf hkeeps
  have hlog : s'.log = r :: s.log := by rw [hs', hs₁]; rfl
  have hdirs : s'.dirs = Function.update s.dirs r.addr { PgDir.zero with phys := r.phys } := by
    rw [hs', hs₁]
    rfl
  refine ⟨r.addr, s', hnew, hkeeps, ⟨r, hlog ▸ List.mem_cons_self .., hobj, rfl⟩, ?_, fun d hd => ?_,
    fun j => ?_, by rw [hs', hs₁]; rfl, by rw [hs', hs₁]; rfl, by rw [hs', hs₁]; rfl⟩
  · rintro d ⟨r', hr', -, rfl⟩
    exact (Fresh.head_ne (hlog ▸ hf) hr').symm
  · rw [hdirs, Function.update_of_ne hd]
  · rw [hdirs, Function.update_self]
    rfl

/-- Before the first page. -/
lemma Mid.start (hC : Copyable s₀ dir) (hf : Fresh (s₀.newPgDir kmallocAp).2.log) :
    Mid s₀ dir (s₀.newPgDir kmallocAp).1 [] (s₀.newPgDir kmallocAp).2 ∧
      (s₀.newPgDir kmallocAp).1 ≠ s₀.kernDir := by
  obtain ⟨new, s', hnew, hkeeps, hisNew, hne, hold, hzero, htabs, hframes, hram⟩ := newPgDir_spec hf
  rw [hnew] at hf ⊢
  have hdir : s'.dirs dir = s₀.dirs dir := hold dir (hne dir hC.isDir).symm
  have hentry : ∀ j q, s'.entry dir j q = s₀.entry dir j q := by
    intro j q
    rw [State.entry, State.entry, hdir, htabs]
  refine ⟨⟨⟨hkeeps.inv hf hC.inv, hkeeps.log, hkeeps.cur.trans hC.cur, hkeeps.kern,
    hC.isDir.mono hkeeps.log, hisNew, hne dir hC.isDir,
    fun j q _ => hentry j q, fun j _ => by rw [hdir], ?_, fun j hj => ?_,
    fun j b _ _ => .inl (hzero j), fun j _ => hzero j, fun j _ ht => absurd (hzero j) ht, ?_, ?_,
    fun j q _ _ => if_pos (hzero j)⟩,
    ⟨by rw [hframes], fun f => ?_, ?_, List.nodup_nil, fun x _ => by rw [hram], ?_⟩⟩,
    hne _ hC.kern⟩
  · rw [hentry]
    exact hC.scratch
  · exact (hC.apart j hj).congr (by rw [hdir]) (by rw [hdir])
  · simp
  · simp
  · rw [hframes]
    simp
  · simp
  · simp

/-- What the loop over the kernel's tables does: it fills the entries of the new directory. -/
structure Shares (s s' : State σ) (new : Nat) (l : List (Fin 1024)) : Prop where
  log : s'.log = s.log
  frames : s'.frames = s.frames
  tabs : s'.tabs = s.tabs
  ram : s'.ram = s.ram
  kern : s'.kernDir = s.kernDir
  cur : s'.currentDir = s.currentDir
  other : ∀ d, d ≠ new → s'.dirs d = s.dirs d
  entry : ∀ i, ((s'.dirs new).tables i, (s'.dirs new).physTabs i) =
    if i ∈ l ∧ (s.dirs s.kernDir).tables i ≠ 0 then
      ((s.dirs s.kernDir).tables i, (s.dirs s.kernDir).physTabs i)
    else ((s.dirs new).tables i, (s.dirs new).physTabs i)

/-- The body of the loop shares one entry. -/
lemma shareTab_spec :
    ∃ s', s.shareTab new i = .ok s' ∧ Shares s s' new [i] := by
  by_cases ht : (s.dirs s.kernDir).tables i = 0
  · refine ⟨s, by rw [State.shareTab, if_neg (not_not.mpr ht)], rfl, rfl, rfl, rfl, rfl, rfl,
      fun _ _ => rfl, fun j => ?_⟩
    rw [if_neg]
    rintro ⟨hj, hne⟩
    exact hne (List.mem_singleton.mp hj ▸ ht)
  · refine ⟨s.setEntry new i ((s.dirs s.kernDir).tables i) ((s.dirs s.kernDir).physTabs i),
      by rw [State.shareTab, if_pos ht], rfl, rfl, rfl, rfl, rfl, rfl, fun d hd => ?_, fun j => ?_⟩
    · simp [State.setEntry, State.setDir, hd]
    · by_cases hj : j = i
      · subst hj
        simp [State.setEntry, State.setDir, ht]
      · simp [State.setEntry, State.setDir, hj]

/-- The loop over the kernel's tables shares all of them. -/
lemma shareTabs_spec {l : List (Fin 1024)} (hk : s.kernDir ≠ new) :
    ∃ s', exec (State.shareTab new) s l = .ok s' ∧ Shares s s' new l := by
  induction l generalizing s with
  | nil => exact ⟨s, rfl, rfl, rfl, rfl, rfl, rfl, rfl, fun _ _ => rfl, fun j => by simp⟩
  | cons i l ih =>
    obtain ⟨s₁, h₁, S₁⟩ : ∃ s₁, s.shareTab new i = .ok s₁ ∧ Shares s s₁ new [i] := shareTab_spec
    obtain ⟨s', h', S'⟩ := ih (s := s₁) (S₁.kern ▸ hk)
    refine ⟨s', by rw [exec_cons h₁, h'], S'.log.trans S₁.log, S'.frames.trans S₁.frames,
      S'.tabs.trans S₁.tabs, S'.ram.trans S₁.ram, S'.kern.trans S₁.kern, S'.cur.trans S₁.cur,
      fun d hd => (S'.other d hd).trans (S₁.other d hd), fun j => ?_⟩
    rw [S'.entry, S₁.kern, S₁.other _ hk, S₁.entry]
    simp only [List.mem_cons]
    by_cases ht : (s.dirs s.kernDir).tables j = 0
    · simp [ht]
    · by_cases hj : j ∈ l
      · simp [ht, hj]
      · simp [ht, hj]

/-! ## The whole copy -/

/-- The first 768 indices are those below `0xC0000000`. -/
lemma mem_low : i ∈ (List.finRange 1024).take 768 ↔ i.val < 768 := by
  rw [List.mem_take_iff_getElem]
  constructor
  · rintro ⟨n, hn, rfl⟩
    simp only [List.getElem_finRange, Fin.val_cast]
    omega
  · intro h
    exact ⟨i, by simpa using h, by simp⟩

/-- The other indices are those from `0xC0000000` on. -/
lemma mem_high : i ∈ (List.finRange 1024).drop 768 ↔ 768 ≤ i.val := by
  rw [List.mem_drop_iff_getElem]
  constructor
  · rintro ⟨n, hn, rfl⟩
    simp
  · intro h
    have := i.isLt
    refine ⟨i.val - 768, by rw [List.length_finRange]; omega, Fin.ext ?_⟩
    simp only [List.getElem_finRange, Fin.val_cast]
    omega

/-- The entry for the processor is empty, too. -/
lemma Agrees.of_zero {log : List Region} {e : Nat} (h : Agrees log 0 e) (hf : Fresh log) : e = 0 := by
  rcases h with ⟨-, h⟩ | ⟨r, hr, -, h0, -⟩
  · exact h
  · exact absurd h0 (hf.valid r hr).1

/-- Behind the directory there is room for the tables. -/
lemma newPgDir_room {P : Region → Prop} {n : Nat}
    (h : Supplies kmallocAp P (.pgDir :: List.replicate n .pgTab) s.heap s.log) :
    (s.newPgDir kmallocAp).2.Room kmallocAp P n := h

/-- The pages that are copied are those below `0xC0000000` with a frame. -/
lemma State.mem_lowPages :
    (i, p) ∈ s.lowPages dir ↔ i.val < 768 ∧ (s.entry dir i p).addr ≠ 0 := by
  simp only [State.lowPages, State.rowPages, List.mem_flatMap, mem_low, List.mem_map,
    List.mem_filter, List.mem_finRange, true_and, Prod.mk.injEq, decide_eq_true_eq]
  constructor
  · rintro ⟨j, hj, q, ha, rfl, rfl⟩
    exact ⟨hj, ha⟩
  · rintro ⟨hi, ha⟩
    exact ⟨i, hi, p, ha, rfl, rfl⟩

/-- No page is listed twice. -/
lemma State.nodup_lowPages : (s.lowPages dir).Nodup := by
  refine List.nodup_flatMap.mpr ⟨fun i _ => ?_, ?_⟩
  · exact ((List.nodup_finRange 1024).filter _).map fun p q h => (Prod.mk.inj h).2
  · refine ((List.nodup_finRange 1024).sublist (List.take_sublist ..)).imp fun {i j} hij => ?_
    intro k hk hk'
    obtain ⟨p, -, rfl⟩ := List.mem_map.mp hk
    obtain ⟨q, -, h⟩ := List.mem_map.mp hk'
    exact hij (Prod.mk.inj h).1.symm

/-- The pages of a copy are those that were copied. -/
lemma Copied.addr_ne (h : Copied s s' dir new) (hi : i.val < 768)
    (ha : (s'.entry new i p).addr ≠ 0) : (s.entry dir i p).addr ≠ 0 := by
  intro h0
  rw [h.unmapped i p hi h0] at ha
  exact ha rfl

/-- It takes no more frames to copy it in turn. -/
lemma Copied.length_lowPages (h : Copied s s' dir new) :
    (s'.lowPages new).length ≤ (s.lowPages dir).length := by
  refine (State.nodup_lowPages.subperm ?_).length_le
  rintro ⟨i, p⟩ hk
  obtain ⟨hi, ha⟩ := State.mem_lowPages.mp hk
  exact State.mem_lowPages.mpr ⟨hi, h.addr_ne hi ha⟩

/-- And no more tables. -/
lemma Copied.lowTabs_le (h : Copied s s' dir new) :
    s'.lowTabs new ((List.finRange 1024).take 768) ≤
      s.lowTabs dir ((List.finRange 1024).take 768) := by
  refine List.countP_mono_left fun i hi ht => ?_
  obtain ⟨p, ha⟩ := h.tables i (mem_low.mp hi) (of_decide_eq_true ht)
  exact decide_eq_true fun h0 => ha (congrArg Page.addr (if_pos h0))

/-- Memory that was clear of the pages that were copied is clear of the copies. -/
lemma Copied.clear {r : Region} (h : Copied s s' dir new) (hr : s.Clear dir r) : s'.Clear new r := by
  intro x hx
  have hsize : bsGetSize s'.frames = bsGetSize s.frames := by rw [bsGetSize, h.sz, ← bsGetSize]
  have hused := (hr x hx).1
  refine ⟨fun hlt => (h.frames _).mpr (.inl (hused (hsize ▸ hlt))), fun i p hi ha e => ?_⟩
  obtain ⟨-, hlt, hclr⟩ := h.present i p hi (h.addr_ne hi ha)
  rw [e] at hlt hclr
  rw [hused hlt] at hclr
  cases hclr

/-- When all pages have been copied and the kernel's tables are shared, the new directory is a copy. -/
lemma Mid.copied (hC : Copyable s₀ dir) (hm : Mid s₀ dir new c s)
    (hkeys : c.map Prod.fst = s₀.lowPages dir) (hk : new ≠ s₀.kernDir)
    (S : Shares s s' new ((List.finRange 1024).drop 768)) (hI : Inv s') (hf : Fresh s.log)
    (hclear : ∀ r ∈ s.log, s₀.Clear dir r) : Copied s₀ s' dir new := by
  obtain ⟨hsp, hst⟩ := hm
  have hmem : ∀ {i p : Fin 1024}, i.val < 768 → (s₀.entry dir i p).addr ≠ 0 →
      ∃ f, ((i, p), f) ∈ c := by
    intro i p hi ha
    have : (i, p) ∈ c.map Prod.fst := hkeys ▸ State.mem_lowPages.mpr ⟨hi, ha⟩
    simpa using this
  have htab : ∀ {i : Fin 1024}, i.val < 768 → (s'.dirs new).tables i = (s.dirs new).tables i := by
    intro i hi
    have h := S.entry i
    rw [if_neg fun hm => absurd (mem_high.mp hm.1) (by omega)] at h
    exact (Prod.mk.inj h).1
  have hnew : ∀ {i p : Fin 1024}, i.val < 768 → s'.entry new i p = s.entry new i p := by
    intro i p hi
    rw [State.entry, State.entry, htab hi, S.tabs]
  have hold : ∀ {i p : Fin 1024}, s'.entry dir i p = s.entry dir i p := by
    intro i p
    rw [State.entry, State.entry, S.other dir hsp.ne.symm, S.tabs]
  have hcopy : ∀ {i p : Fin 1024} {f : Nat}, ((i, p), f) ∈ c →
      (s'.entry new i p).present = true ∧ (s'.entry new i p).addr.val = f := by
    intro i p f h
    rw [hnew (hsp.keys _ f h).1, hsp.done _ f h]
    exact ⟨rfl, Nat.mod_eq_of_lt (hst.fresh f (List.mem_map.mpr ⟨_, h, rfl⟩)).2.2⟩
  have hbyte : ∀ {f n : Nat}, f < 1048576 → n < 4096 → Off s.log f →
      s'.physByte (f * 4096 + n) = s.ram (f * 4096 + n) := by
    intro f n hf20 hn hoff
    have hdiv : (f * 4096 + n) / 4096 = f := by omega
    rw [State.physByte_off (by omega) (by rw [hdiv, S.log]; exact hoff), S.ram]
  have hsrc : ∀ {i p : Fin 1024}, i.val < 768 → (s₀.entry dir i p).addr ≠ 0 → ∀ n < 4096,
      s.ram ((s₀.entry dir i p).addr * 4096 + n) =
        s₀.ram ((s₀.entry dir i p).addr * 4096 + n) := by
    intro i p hi ha n hn
    have hheld := hC.held i p hi ha
    refine hst.ram _ fun hmem => ?_
    rw [show ((s₀.entry dir i p).addr.val * 4096 + n) / 4096 = (s₀.entry dir i p).addr by omega]
      at hmem
    rw [(hst.fresh _ hmem).1] at hheld
    cases hheld
  have hframe : ∀ {i p : Fin 1024} {f : Nat}, ((i, p), f) ∈ c →
      Frames.get s₀.frames f = false ∧ f < bsGetSize s₀.frames ∧ f < 1048576 :=
    fun h => hst.fresh _ (List.mem_map.mpr ⟨_, h, rfl⟩)
  refine ⟨hsp.isNew.mono (S.log ▸ List.suffix_rfl), hI, fun i p hi ha => ?_,
    fun i p j q hi ha hj hb he => ?_, fun i p hi ha n hn => ?_, fun i p hi ha => ?_,
    fun i hi ht => hsp.newLow i hi (htab hi ▸ ht), fun i hi => ?_,
    fun i p hi => by rw [hold, hsp.low i p hi], fun i p hi ha n hn => ?_,
    by rw [hold]; exact hsp.scratch, S.cur.trans hsp.cur, S.kern.trans hsp.kern,
    by rw [S.frames, hst.sz], fun f => ?_⟩
  · obtain ⟨f, hf⟩ := hmem hi ha
    obtain ⟨hp, rfl⟩ := hcopy hf
    exact ⟨hp, (hframe hf).2.1, (hframe hf).1⟩
  · obtain ⟨f, hf⟩ := hmem hi ha
    obtain ⟨g, hg⟩ := hmem hj hb
    have hfg : f = g := by rw [← (hcopy hf).2, ← (hcopy hg).2, he]
    exact (Prod.mk.inj (List.inj_on_of_nodup_map hst.nodup hf hg hfg)).1
  · obtain ⟨f, hf⟩ := hmem hi ha
    have h := hframe hf
    rw [(hcopy hf).2, hbyte h.2.2 hn (clear_off_free hclear h.2.1 h.1),
      hbyte (Fin.isLt _) hn (clear_off hclear hi ha), hst.bytes _ _ hf n hn, hsrc hi ha n hn]
  · rw [hnew hi]
    refine hsp.rest i p hi fun hc => ?_
    exact (State.mem_lowPages.mp (hkeys ▸ hc)).2 ha
  · have hkern : s.kernDir ≠ new := hsp.kern ▸ hk.symm
    have hdir : s.IsDir s.kernDir := hsp.kern ▸ hC.kern.mono hsp.log
    have he := S.entry i
    rw [← hsp.kern, S.other _ hkern]
    by_cases ht : (s.dirs s.kernDir).tables i = 0
    · rw [if_neg fun h => h.2 ht, hsp.newUpper i hi] at he
      obtain ⟨ht', hp'⟩ := Prod.mk.inj he
      have hzero := (hsp.newUpper i hi ▸ hsp.inv.entry new hsp.isNew i).of_zero hf
      rw [ht', hp', ht, hzero]
      exact ⟨rfl, ((ht ▸ hsp.inv.entry _ hdir i).of_zero hf).symm⟩
    · rw [if_pos ⟨mem_high.mpr hi, ht⟩] at he
      exact Prod.mk.inj he
  · have hoff₀ : Off s₀.log (s₀.entry dir i p).addr := (clear_off hclear hi ha).mono hsp.log
    have hdiv : ((s₀.entry dir i p).addr.val * 4096 + n) / 4096 = (s₀.entry dir i p).addr := by
      omega
    rw [hbyte (Fin.isLt _) hn (clear_off hclear hi ha), hsrc hi ha n hn,
      State.physByte_off (by omega) (by rw [hdiv]; exact hoff₀)]
  · rw [S.frames, hst.bits]
    refine or_congr Iff.rfl ⟨fun h => ?_, ?_⟩
    · obtain ⟨⟨⟨i, p⟩, g⟩, hg, rfl⟩ := List.mem_map.mp h
      exact ⟨i, p, (hsp.keys _ _ hg).1, (hsp.keys _ _ hg).2, (hcopy hg).2⟩
    · rintro ⟨i, p, hi, ha, rfl⟩
      obtain ⟨g, hg⟩ := hmem hi ha
      exact List.mem_map.mpr ⟨_, hg, ((hcopy hg).2).symm⟩

/-- Copying the current directory: as long as there is a free frame for every page below `0xC0000000`,
and memory for the new directory, for its tables and for the table of the scratch page, that is clear
of free frames and of those pages, `copy_pg_dir` returns a copy. -/
theorem copyPgDir_copies {n : Nat} (hC : Copyable s dir)
    (htabs : s.lowTabs dir ((List.finRange 1024).take 768) ≤ n)
    (hroom : Supplies kmallocAp (s.Clear dir) (.pgDir :: List.replicate (n + 1) .pgTab) s.heap s.log)
    (hfree : (s.lowPages dir).length ≤ (freeFrames s.frames).length) :
    ∃ new s', s.copyPgDir kmallocAp dir = .ok (new, s') ∧ Copied s s' dir new := by
  obtain ⟨new, s₁, hnew⟩ : ∃ new s₁, s.newPgDir kmallocAp = (new, s₁) := ⟨_, _, rfl⟩
  have hroom₁ := newPgDir_room hroom
  rw [hnew] at hroom₁
  obtain ⟨hm₁, hne⟩ : Mid s dir new [] s₁ ∧ new ≠ s.kernDir := by
    have hstart := Mid.start hC (hnew ▸ hroom₁.here.1)
    rw [hnew] at hstart
    exact hstart
  have hmiss : s₁.missing dir 896 ≤ 1 := State.missing_le_one
  have hnodup : ((List.finRange 1024).take 768).Nodup :=
    (List.nodup_finRange 1024).sublist (List.take_sublist ..)
  obtain ⟨s₂, c, hrun₂, hkeys, hm₂, hroom₂⟩ := hm₁.rows hC hnodup (fun i => mem_low.mp) (by simp)
    (by rw [List.length_nil, Nat.zero_add]; exact hfree) htabs (hroom₁.mono (by omega))
  rw [List.map_nil, List.nil_append] at hkeys
  obtain ⟨hfresh, hclear⟩ := hroom₂.here
  have hk : s₂.kernDir ≠ new := hm₂.space.kern ▸ hne.symm
  obtain ⟨s', hrun', S⟩ := shareTabs_spec (l := (List.finRange 1024).drop 768) hk
  have hrun : s.copyPgDir kmallocAp dir = .ok (new, s') := by
    rw [State.copyPgDir, hnew]
    exact bind_ok.mpr ⟨s₂, hrun₂, bind_ok.mpr ⟨s', hrun', rfl⟩⟩
  have hI : Inv s' := (keeps_copyPgDir hC.kern hrun).inv (S.log ▸ hfresh) hC.inv
  exact ⟨new, s', hrun, hm₂.copied hC hkeys hne S hI hfresh hclear⟩

end

/-- The machine with one page at `0x1000`, whose frame is the second one. -/
def lowPage : State Nat where
  heap := 0x5000
  log := [⟨.pgTab, 0xD0004000, 0x404000⟩, ⟨.pgDir, 0xD0001000, 0x401000⟩]
  frames := ⟨1, #v[3#32]⟩
  dirs := fun _ => ⟨fun i => if i = 0 then 0x404007 else 0, fun i => if i = 0 then 0xD0004000 else 0,
    0x401000⟩
  tabs := fun _ p => if p = 1 then .copied 1 else Page.zero
  ram := fun x => .ofNat x
  kernDir := 0xD0001000
  currentDir := 0xD0001000
  cr3 := 0x401000

/-- The machine has one page. -/
lemma lowPage_entry {d : Nat} {i p : Fin 1024} :
    lowPage.entry d i p = if i = 0 ∧ p = 1 then .copied 1 else Page.zero := by
  by_cases hi : i = 0 <;> simp [State.entry, lowPage, hi]

/-- The page that has a frame is the second one of the first table. -/
lemma lowPage_addr {d : Nat} {i p : Fin 1024} (h : (lowPage.entry d i p).addr ≠ 0) :
    i = 0 ∧ p = 1 := by
  by_contra hip
  rw [lowPage_entry, if_neg hip] at h
  exact h rfl

/-- Its two kinds of entries agree. -/
lemma lowPage_inv : Inv lowPage := by
  refine ⟨?_, fun d hd i => ?_⟩
  · intro r hr ho
    rcases List.mem_cons.mp hr with rfl | hr
    · cases ho
    · rw [List.mem_singleton.mp hr]
      rfl
  · by_cases hi : i = 0
    · subst hi
      exact .inr ⟨_, .head _, rfl, rfl, rfl⟩
    · exact .inl ⟨if_neg hi, if_neg hi⟩

/-- Its directory can be copied. -/
lemma lowPage_copyable : Copyable lowPage 0xD0001000 where
  cur := rfl
  isDir := ⟨_, .tail _ (.head _), rfl, rfl⟩
  kern := ⟨_, .tail _ (.head _), rfl, rfl⟩
  inv := lowPage_inv
  bits := by decide
  zero := by decide
  scratch := by
    rw [lowPage_entry]
    decide
  apart := fun _ _ => .inl (by decide)
  present := by
    intro i p _ ha
    rw [lowPage_entry, if_pos (lowPage_addr ha)]
    rfl
  held := by
    intro i p _ ha
    rw [lowPage_entry, if_pos (lowPage_addr ha)]
    decide

/-- One table has a page to copy. -/
lemma lowPage_row (i : Fin 1024) : lowPage.rowPages 0xD0001000 i (List.finRange 1024) =
    if i = 0 then [(0, 1)] else [] := by
  by_cases hi : i = 0
  · subst hi
    decide +kernel
  · have hzero : ∀ p, lowPage.entry 0xD0001000 i p = Page.zero := fun p => by
      rw [lowPage_entry, if_neg fun h => hi h.1]
    simp [State.rowPages, hzero, Page.zero, hi]

/-- The machine has one page to copy. -/
lemma lowPage_lowPages : lowPage.lowPages 0xD0001000 = [(0, 1)] := by
  have hrow : ∀ l : List (Fin 1024), (l.flatMap fun i =>
      lowPage.rowPages 0xD0001000 i (List.finRange 1024)) =
        l.flatMap fun i => if i = 0 then [(0, 1)] else [] :=
    fun l => congrArg (l.flatMap ·) (funext lowPage_row)
  rw [State.lowPages, hrow]
  decide +kernel

/-- The copy of its directory. -/
theorem copyPgDir_copies_one : ∃ new s', lowPage.copyPgDir placement 0xD0001000 = .ok (new, s') ∧
    Copied lowPage s' 0xD0001000 new := by
  refine copyPgDir_copies (n := 1) lowPage_copyable (by decide +kernel) ⟨⟨by decide, by decide⟩, ?_⟩
    (by rw [lowPage_lowPages]; decide)
  intro r hr x hx
  have hfar : 1024 ≤ x / 4096 := by
    have hp : ∀ r ∈ [(⟨.pgTab, 0xD000A000, 0x40A000⟩ : Region), ⟨.pgTab, 0xD0008000, 0x408000⟩,
      ⟨.pgDir, 0xD0005000, 0x405000⟩, ⟨.pgTab, 0xD0004000, 0x404000⟩,
      ⟨.pgDir, 0xD0001000, 0x401000⟩], 0x400000 ≤ r.phys := by decide
    have := hp r hr
    have := hx.1
    omega
  refine ⟨fun hlt => absurd hlt ?_, fun i p _ ha => ?_⟩
  · rw [show bsGetSize lowPage.frames = 32 from rfl]
    omega
  · rw [lowPage_entry, if_pos (lowPage_addr ha)]
    show 1 ≠ x / 4096
    omega

end ToeS.Vmm
