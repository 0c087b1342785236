import ToeS.Vmm.Stack

/-!
# Address spaces with one kernel half

`copy_pg_dir` in any of several address spaces: the directory that is copied need not be the current
one, in which case the copy may end in a page fault. `Spaces s ds` says that the directories `ds` have
the tables of the kernel's directory from `0xC0000000` on, and tables of their own below. The table of
the scratch page is made in the current directory, so it has to be there, or the kernel's directory has
to be the only one. `Spread` is what the loops over the pages change.
-/

namespace ToeS.Vmm
open Lib Frames

variable {σ : Type}

/-- Memory that is in no free frame. -/
def State.Housed (s : State σ) (r : Region) : Prop :=
  ∀ x, r.Has x → x / 4096 < bsGetSize s.frames → Frames.get s.frames (x / 4096) = true

/-- A table lies off the free frames when more are used. -/
lemma State.Housed.mono {s s' : State σ} {r : Region} (h : s.Housed r)
    (hsz : s'.frames.sz = s.frames.sz)
    (hu : ∀ f, Frames.get s.frames f = true → Frames.get s'.frames f = true) : s'.Housed r := by
  intro x hx hlt
  rw [bsGetSize, hsz, ← bsGetSize] at hlt
  exact hu _ (h x hx hlt)

/-- The directories `ds` share the tables of the kernel's directory from `0xC0000000` on, and nothing
else; the scratch page is unmapped. -/
structure Spaces (s : State σ) (ds : List Nat) : Prop where
  inv : Inv s
  isDir : ∀ d ∈ ds, s.IsDir d
  kern : s.kernDir ∈ ds
  cur : s.currentDir ∈ ds
  upper : ∀ d ∈ ds, ∀ i : Fin 1024, 768 ≤ i.val →
    (s.dirs d).tables i = (s.dirs s.kernDir).tables i
  own : ∀ d ∈ ds, ∀ e ∈ ds, ∀ i j : Fin 1024, i.val < 768 → (d, i) ≠ (e, j) → s.Sep (d, i) (e, j)
  scratch : (s.entry s.kernDir 896 0).addr = 0
  bits : s.frames.sz * 32 < 4294967296
  zero : Frames.get s.frames 0 = true

/-! ## Tables that are there stay -/

/-- No entry of a directory that has a table is changed. -/
def Grows (s s' : State σ) : Prop :=
  ∀ d i, (s.dirs d).tables i ≠ 0 → (s'.dirs d).tables i = (s.dirs d).tables i ∧
    (s'.dirs d).physTabs i = (s.dirs d).physTabs i

section
variable {kmallocAp : σ → Nat → Nat × Nat × σ} {s s' s'' : State σ}

/-- A state with the same directories has the same tables. -/
lemma Grows.of_eq (h : s'.dirs = s.dirs) : Grows s s' := fun d i _ => by rw [h]; exact ⟨rfl, rfl⟩

/-- Tables that stay in two steps stay. -/
lemma Grows.trans (h : Grows s s') (h' : Grows s' s'') : Grows s s'' := by
  intro d i hi
  obtain ⟨ht, hp⟩ := h d i hi
  obtain ⟨ht', hp'⟩ := h' d i (ht ▸ hi)
  exact ⟨ht'.trans ht, hp'.trans hp⟩

/-- A page that is mapped takes no table away. -/
lemma grows_mapAt {va dir frame : Nat} {page : PagePtr}
    (h : s.mapAt kmallocAp va dir frame = .ok (page, s')) : Grows s s' := by
  have hget : Grows s (s.getPage kmallocAp va 1 dir).2 := by
    unfold State.getPage
    split
    · exact .of_eq rfl
    · rename_i h0
      intro d i hi
      by_cases hdi : d = dir ∧ i = pdIdx va
      · obtain ⟨rfl, rfl⟩ := hdi
        exact absurd hi h0
      · rw [if_pos (by decide)]
        by_cases hd : d = dir
        · have hne : i ≠ pdIdx va := fun e => hdi ⟨hd, e⟩
          subst hd
          simp [State.setEntry, State.setDir, State.setTab, State.alloc, hne]
        · simp [State.setEntry, State.setDir, State.setTab, State.alloc, hd]
  unfold State.mapAt at h
  split at h
  · rename_i hp
    rw [hp] at hget
    cases h
    exact hget.trans (.of_eq rfl)
  · cases h

/-- `memcpy` takes no table away. -/
lemma grows_memcpy {src dst n : Nat} (h : s.memcpy src dst n = .ok s') : Grows s s' := by
  induction n generalizing s' with
  | zero =>
    cases h
    exact .of_eq rfl
  | succ n ih =>
    obtain ⟨s₁, h₁, h⟩ := bind_ok.mp h
    refine (ih h₁).trans ?_
    split at h
    · split at h
      · cases h
      · cases h
        exact .of_eq rfl
    · cases h

/-- The copy of a page takes no table away. -/
lemma grows_copyPage {new : Nat} {i p : Fin 1024}
    (h : s.copyPage kmallocAp new i p = .ok s') : Grows s s' := by
  obtain ⟨⟨page, s₁⟩, h₁, h⟩ := bind_ok.mp h
  obtain ⟨s₂, h₂, h⟩ := bind_ok.mp h
  obtain ⟨⟨page', s₃⟩, h₃, h⟩ := bind_ok.mp h
  cases h
  have hframe : Grows s { s with frames := (getFrame s.frames).2 } := .of_eq rfl
  have hswitch : Grows s₁ (s₁.switchPageDirectory s₁.currentDir) := .of_eq rfl
  have hunmap : Grows s₂ (s₂.unmapPage page) := .of_eq rfl
  have hcopied : Grows s s₂ :=
    ((hframe.trans (grows_mapAt h₁)).trans hswitch).trans (grows_memcpy h₂)
  exact ((hcopied.trans hunmap).trans (grows_mapAt h₃)).trans (.of_eq rfl)

end

/-! ## One page -/

/-- `n` pages were copied on the way from `s` to `s'`, with the current directory of `s`, for the
directory `new`. -/
structure Spread (s s' : State σ) (new n : Nat) : Prop where
  keeps : Keeps s s'
  grows : Grows s s'
  table : ∀ d j, (d, j) ≠ (s.currentDir, (896 : Fin 1024)) → (d = new → 768 ≤ j.val) →
    (s'.dirs d).tables j = (s.dirs d).tables j
  made : 0 < n → (s'.dirs s.currentDir).tables 896 ≠ 0
  scratch : (s.entry s.currentDir 896 0).addr = 0 → (s'.entry s.currentDir 896 0).addr = 0
  entry : ∀ d, s.IsDir d → ∀ j q, (d, j) ≠ (s.currentDir, (896 : Fin 1024)) →
    s.Sep (s.currentDir, 896) (d, j) → (∀ i, (d, j) ≠ (new, i) ∧ s.Sep (new, i) (d, j)) →
      s'.entry d j q = s.entry d j q
  sep : ∀ a b, s.IsDir a.1 → s.IsDir b.1 → a ≠ b → s.Sep a b → s'.Sep a b
  sz : s'.frames.sz = s.frames.sz
  used : ∀ f, Frames.get s.frames f = true → Frames.get s'.frames f = true
  free : (freeFrames s.frames).length ≤ (freeFrames s'.frames).length + n

section
variable {kmallocAp : σ → Nat → Nat × Nat × σ} {P : Region → Prop} {s s' s'' : State σ}
  {new k m n f : Nat} {i p : Fin 1024} {bs : BitSet} {pg : Page}

/-- No table has been made. -/
lemma Spread.refl : Spread s s new 0 where
  keeps := .refl
  grows := .of_eq rfl
  table := fun _ _ _ _ => rfl
  made := fun h => absurd h (lt_irrefl 0)
  scratch := id
  entry := fun _ _ _ _ _ _ _ => rfl
  sep := fun _ _ _ _ _ => id
  sz := rfl
  used := fun _ => id
  free := le_rfl

/-- The tables that two steps make are apart. -/
lemma Spread.trans (h : Spread s s' new m) (h' : Spread s' s'' new n) (hn : s.IsDir new)
    (hc : s.IsDir s.currentDir) : Spread s s'' new (m + n) := by
  have hcur : s'.currentDir = s.currentDir := h.keeps.cur
  obtain ⟨hk', hg', ht', hm', hsc', he', hs', hsz', hu', hf'⟩ := h'
  rw [hcur] at ht' hm' hsc' he'
  refine ⟨h.keeps.trans hk', h.grows.trans hg', fun d j hdj hd => ?_, fun hmn => ?_,
    fun h0 => hsc' (h.scratch h0), fun d hd j q hdj hsep hnew => ?_, fun a b ha hb hab hsep => ?_,
    hsz'.trans h.sz, fun f hf => hu' f (h.used f hf), ?_⟩
  · exact (ht' d j hdj hd).trans (h.table d j hdj hd)
  · by_cases hm0 : 0 < m
    · have hne := h.made hm0
      exact (hg' _ _ hne).1 ▸ hne
    · exact hm' (by omega)
  · refine (he' d (hd.mono h.keeps.log) j q hdj ?_ fun i => ⟨(hnew i).1, ?_⟩).trans
      (h.entry d hd j q hdj hsep hnew)
    · exact h.sep _ _ hc hd hdj.symm hsep
    · exact h.sep _ _ hn hd (hnew i).1.symm (hnew i).2
  · exact hs' a b (ha.mono h.keeps.log) (hb.mono h.keeps.log) hab (h.sep a b ha hb hab hsep)
  · have := h.free
    omega

/-- `map_page` of a frame marks it, or leaves the bitset alone. -/
lemma mapPage_marks (h0 : f ≠ 0) (hf : f < bsGetSize bs) :
    (mapPage bs pg 1 1 (f * 4096)).1 = bs ∨ (mapPage bs pg 1 1 (f * 4096)).1 = bsSet bs f := by
  by_cases ha : pg.addr = 0
  · rw [mapPage_at ha h0 hf]
    exact .inr rfl
  · rw [mapPage_held ha]
    exact .inl rfl

/-- The body of the loop in any address space: as long as a frame is free, it ends in a page fault, or
copies the page. -/
lemma copyPage_spread (hI : Inv s) (hc : s.IsDir s.currentDir) (hn : s.IsDir new)
    (hne : new ≠ s.currentDir) (hi : i.val < 768)
    (hapart : ∀ j : Fin 1024, j.val < 768 → s.Sep (s.currentDir, 896) (new, j))
    (hscr : (s.entry s.currentDir 896 0).addr = 0) (hs : s.frames.sz * 32 < 4294967296)
    (hzero : Frames.get s.frames 0 = true) (hfree : 0 < (freeFrames s.frames).length)
    (hoff : ∀ log, (∀ r ∈ log, P r) → ∀ f < bsGetSize s.frames, Frames.get s.frames f = false →
      Off log f)
    (hroom : s.Room kmallocAp P (s.missing s.currentDir 896 + (s.missing new i + k))) :
    s.copyPage kmallocAp new i p = .error .pageFault ∨
      ∃ s', s.copyPage kmallocAp new i p = .ok s' ∧ Spread s s' new 1 ∧
        (s'.dirs new).tables i ≠ 0 ∧ s'.Room kmallocAp P k := by
  obtain ⟨g, hg⟩ := List.exists_mem_of_length_pos hfree
  obtain ⟨f, h0, hf, h20, hclr, hrun⟩ := getFrame_free hs hzero ⟨g, mem_freeFrames.mp hg⟩
  obtain ⟨s₁, hput₁, hcr3, hfr₁, -, hroom₁, hcopyPage⟩ :=
    copyPage_start hI rfl hc hscr hrun h0 hf hroom
  -- `memcpy`
  have hcopy : s₁.memcpy (idx2pg i p) (idx2pg 896 0) 4096 = .error .pageFault ∨
      ∃ m, s₁.memcpy (idx2pg i p) (idx2pg 896 0) 4096 = .ok { s₁ with ram := m } :=
    memcpy_halts (hput₁.keeps.inv hroom₁.here.1 hI) hroom₁.here.1 (hc.mono hput₁.keeps.log) hcr3
      (by rw [hput₁.self]; rfl) (by rw [hput₁.self]; exact Nat.mod_eq_of_lt h20)
      (hoff _ hroom₁.here.2 f hf hclr) le_rfl
  rw [hcopyPage]
  rcases hcopy with hcopy | ⟨m, hcopy⟩
  · exact .inl (by rw [hcopy]; rfl)
  obtain ⟨s₂, hs₂⟩ : ∃ s₂, s₂ = { s₁ with ram := m } := ⟨_, rfl⟩
  have same₂ : SameTabs s₁ s₂ := by
    rw [hs₂]
    exact ⟨rfl, rfl, rfl, rfl, rfl, rfl⟩
  obtain ⟨s₃, s', hrest, hput₃, hput', hsz₃, hbits₃, hfr', -, hroom'⟩ :=
    copyPage_finish (i := i) (p := p) hI hc hn hne (hapart i hi) (hput₁.same same₂)
      (hfr₁ ▸ by rw [hs₂]) h0 hf h20 hclr (hroom₁.congr same₂.heap same₂.log)
  have hok : s.copyPage kmallocAp new i p = .ok s' := by
    rw [hcopyPage, hcopy, ← hs₂, ← same₂.dirs]
    exact hrest
  rw [hcopyPage] at hok
  refine .inr ⟨s', hok, ?_, hput'.ne, hroom'⟩
  have hni : (new, i) ≠ (s.currentDir, (896 : Fin 1024)) := fun e => hne (Prod.mk.inj e).1
  have hgrows : Grows s s' := grows_copyPage ((hcopyPage new i p).trans hok)
  have hsize : bsGetSize s₃.frames = bsGetSize s.frames := by rw [bsGetSize, hsz₃, ← bsGetSize]
  have hmarks := @mapPage_marks _ s₃.frames (s.entry new i p) h0 (hsize ▸ hf)
  rw [← hfr'] at hmarks
  have hlen : (freeFrames s₃.frames).length = (freeFrames s.frames).length := by
    rw [freeFrames, freeFrames, hsize]
    simp only [hbits₃]
  refine ⟨hput₃.keeps.trans hput'.keeps, hgrows, fun d j hdj hd => ?_, fun _ => ?_, fun _ => ?_,
    fun d hd j q hdj hsep hnew => ?_, fun a b ha hb hab hsep => ?_, ?_, fun j hj => ?_, ?_⟩
  · rw [hput'.table d j ?_, hput₃.table d j hdj]
    intro e
    obtain ⟨rfl, rfl⟩ := Prod.mk.inj e
    exact absurd (hd rfl) (by omega)
  · rw [hput'.table _ _ hni.symm]
    exact hput₃.ne
  · have hsep₃ : s₃.Sep (new, i) (s.currentDir, 896) :=
      hput₃.sep _ _ hn hc hni (hapart i hi).symm
    rw [hput'.entry _ (hc.mono hput₃.keeps.log) 896 0 hni.symm hsep₃, hput₃.self]
    rfl
  · have hsep₃ : s₃.Sep (new, i) (d, j) := hput₃.sep _ _ hn hd (hnew i).1.symm (hnew i).2
    rw [hput'.entry d (hd.mono hput₃.keeps.log) j q (hnew i).1 hsep₃, hput₃.entry d hd j q hdj hsep]
  · exact hput'.sep a b (ha.mono hput₃.keeps.log) (hb.mono hput₃.keeps.log) hab
      (hput₃.sep a b ha hb hab hsep)
  · rw [hfr', mapPage_sz, hsz₃]
  · rcases hmarks with h | h
    · rw [h, hbits₃, hj]
    · rw [h, get_set (hsize ▸ hf), hbits₃, hj, Bool.true_or]
  · rcases hmarks with h | h
    · rw [h, hlen]
      exact Nat.le_add_right ..
    · rw [h, ← hlen]
      exact length_freeFrames_bsSet (hsize ▸ hf)

end

/-! ## The loops -/

/-- What the loops over the pages of `dir` start from: `new` is empty. -/
structure Copying (s₀ : State σ) (dir new : Nat) : Prop where
  inv : Inv s₀
  cur : s₀.IsDir s₀.currentDir
  src : s₀.IsDir dir
  isNew : s₀.IsDir new
  neCur : new ≠ s₀.currentDir
  neSrc : new ≠ dir
  empty : ∀ j, (s₀.dirs new).tables j = 0
  apart : ∀ i : Fin 1024, i.val < 768 → s₀.Sep (s₀.currentDir, 896) (dir, i)
  scratch : (s₀.entry s₀.currentDir 896 0).addr = 0
  bits : s₀.frames.sz * 32 < 4294967296
  zero : Frames.get s₀.frames 0 = true

section
variable {kmallocAp : σ → Nat → Nat × Nat × σ} {s₀ s s' : State σ} {dir new k n : Nat}
  {i p : Fin 1024}

/-- The table of the scratch page is not one of the lower half. -/
lemma low_ne {d e : Nat} (hi : i.val < 768) : (d, i) ≠ (e, (896 : Fin 1024)) := by
  intro h
  rw [(Prod.mk.inj h).2] at hi
  exact absurd hi (by decide)

/-- The tables below `0xC0000000` of the directory that is copied stay, with their entries. -/
lemma Copying.source (hC : Copying s₀ dir new) (h : Spread s₀ s new n) (hi : i.val < 768) :
    (s.dirs dir).tables i = (s₀.dirs dir).tables i ∧
      ∀ p, s.entry dir i p = s₀.entry dir i p :=
  ⟨h.table dir i (low_ne hi) fun e => absurd e.symm hC.neSrc,
    fun p => h.entry dir hC.src i p (low_ne hi) (hC.apart i hi) fun j =>
      ⟨fun e => hC.neSrc (Prod.mk.inj e).1.symm, .inl (hC.empty j)⟩⟩

/-- A free frame is off the memory of the tables. -/
lemma housed_off {log : List Region} {f : Nat} (hlog : ∀ r ∈ log, s₀.Housed r)
    (hf : f < bsGetSize s₀.frames) (hclr : Frames.get s₀.frames f = false) : Off log f := by
  rintro r hr x hx rfl
  rw [hlog r hr x hx hf] at hclr
  cases hclr

/-- One page more. -/
lemma Copying.page (hC : Copying s₀ dir new) (h : Spread s₀ s new n) (hi : i.val < 768)
    (hn : n < (freeFrames s₀.frames).length)
    (hroom : s.Room kmallocAp s₀.Housed (s.missing s₀.currentDir 896 + (s.missing new i + k))) :
    s.copyPage kmallocAp new i p = .error .pageFault ∨
      ∃ s', s.copyPage kmallocAp new i p = .ok s' ∧ Spread s₀ s' new (n + 1) ∧
        s'.Room kmallocAp s₀.Housed (s'.missing s₀.currentDir 896 + (s'.missing new i + k)) := by
  have hcur : s.currentDir = s₀.currentDir := h.keeps.cur
  have hsize : bsGetSize s.frames = bsGetSize s₀.frames := by rw [bsGetSize, h.sz, ← bsGetSize]
  have hfree := h.free
  have hspread := @copyPage_spread _ kmallocAp s₀.Housed s new k i p
    (h.keeps.inv hroom.here.1 hC.inv) (hcur ▸ hC.cur.mono h.keeps.log) (hC.isNew.mono h.keeps.log)
    (hcur ▸ hC.neCur) hi
    (fun j _ => hcur ▸ (h.sep _ _ hC.isNew hC.cur (fun e => hC.neCur (Prod.mk.inj e).1)
      (.inl (hC.empty j))).symm)
    (hcur ▸ h.scratch hC.scratch) (h.sz ▸ hC.bits) (h.used 0 hC.zero) (by omega)
    (fun log hlog f hf hclr => housed_off hlog (hsize ▸ hf) (by
      by_contra hb
      rw [h.used f (by simpa using hb)] at hclr
      cases hclr))
    (hcur.symm ▸ hroom)
  refine hspread.imp_right ?_
  rintro ⟨s', hok, h', hne, hroom'⟩
  have htrans := h.trans h' hC.isNew hC.cur
  refine ⟨s', hok, htrans, ?_⟩
  have hmiss : s'.missing s₀.currentDir 896 = 0 := if_neg (htrans.made (Nat.succ_pos n))
  have hrow : s'.missing new i = 0 := if_neg hne
  rw [hmiss, hrow, Nat.zero_add, Nat.zero_add]
  exact hroom'

/-- The loop over the pages of a table. -/
lemma Copying.row (hC : Copying s₀ dir new) (hi : i.val < 768) (ht : (s₀.dirs dir).tables i ≠ 0)
    {ps : List (Fin 1024)} (h : Spread s₀ s new n)
    (hn : n + (s₀.rowPages dir i ps).length ≤ (freeFrames s₀.frames).length)
    (hroom : s.Room kmallocAp s₀.Housed (s.missing s₀.currentDir 896 + (s.missing new i + k))) :
    exec (fun s p => if (s.tabs ((s₀.dirs dir).tables i) p).addr ≠ 0 then
        s.copyPage kmallocAp new i p else .ok s) s ps = .error .pageFault ∨
      ∃ s', exec (fun s p => if (s.tabs ((s₀.dirs dir).tables i) p).addr ≠ 0 then
        s.copyPage kmallocAp new i p else .ok s) s ps = .ok s' ∧
      Spread s₀ s' new (n + (s₀.rowPages dir i ps).length) ∧
      s'.Room kmallocAp s₀.Housed (s'.missing s₀.currentDir 896 + (s'.missing new i + k)) := by
  induction ps generalizing s n with
  | nil => exact .inr ⟨s, rfl, h, hroom⟩
  | cons p ps ih =>
    obtain ⟨htab, hentry⟩ := hC.source h hi
    have hpage : s.tabs ((s₀.dirs dir).tables i) p = s₀.entry dir i p := by
      rw [← hentry, State.entry_of_ne (by rwa [htab]), htab]
    by_cases ha : (s₀.entry dir i p).addr = 0
    · rw [State.rowPages_cons_zero ha] at hn ⊢
      have hskip : (if (s.tabs ((s₀.dirs dir).tables i) p).addr ≠ 0 then s.copyPage kmallocAp new i p
          else .ok s) = .ok s := by simp [hpage, ha]
      rw [exec_cons hskip]
      exact ih h hn hroom
    · have hcopy : (if (s.tabs ((s₀.dirs dir).tables i) p).addr ≠ 0 then
          s.copyPage kmallocAp new i p else .ok s) = s.copyPage kmallocAp new i p := by
        simp [hpage, ha]
      rw [State.rowPages_cons ha, List.length_cons] at hn ⊢
      rcases hC.page (p := p) h hi (by omega) hroom with hfault | ⟨s₁, hok, h₁, hroom₁⟩
      · exact .inl (exec_cons_error (hcopy.trans hfault))
      · rw [exec_cons (hcopy.trans hok)]
        have hlen : n + 1 + (s₀.rowPages dir i ps).length =
            n + ((s₀.rowPages dir i ps).length + 1) := by omega
        have hrest := ih h₁ (by omega) hroom₁
        rwa [hlen] at hrest

/-- The loop over the tables. -/
lemma Copying.rows (hC : Copying s₀ dir new) {is : List (Fin 1024)}
    (hlow : ∀ i ∈ is, i.val < 768) (h : Spread s₀ s new n)
    (hn : n + (is.flatMap fun i => s₀.rowPages dir i (List.finRange 1024)).length ≤
      (freeFrames s₀.frames).length)
    (hk : s₀.lowTabs dir is ≤ k)
    (hroom : s.Room kmallocAp s₀.Housed (s.missing s₀.currentDir 896 + k)) :
    exec (State.copyTab kmallocAp dir new) s is = .error .pageFault ∨
      ∃ s', exec (State.copyTab kmallocAp dir new) s is = .ok s' ∧
      Spread s₀ s' new (n + (is.flatMap fun i => s₀.rowPages dir i (List.finRange 1024)).length) ∧
      s'.Room kmallocAp s₀.Housed 0 := by
  induction is generalizing s n k with
  | nil => exact .inr ⟨s, rfl, h, hroom.mono (Nat.zero_le _)⟩
  | cons i is ih =>
    have hi : i.val < 768 := hlow i (by simp)
    have hrest : ∀ i ∈ is, i.val < 768 := fun j hj => hlow j (List.mem_cons_of_mem _ hj)
    obtain ⟨htab, -⟩ := hC.source h hi
    rw [List.flatMap_cons, List.length_append] at hn ⊢
    by_cases ht : (s₀.dirs dir).tables i = 0
    · have hskip : s.copyTab kmallocAp dir new i = .ok s := by
        rw [State.copyTab, htab, if_neg (not_not.mpr ht)]
      rw [State.lowTabs_cons_zero ht] at hk
      rw [State.rowPages_slot_zero ht, List.length_nil, Nat.zero_add] at hn ⊢
      rw [exec_cons hskip]
      exact ih hrest h hn hk hroom
    · have htabs : s₀.lowTabs dir (i :: is) = 1 + s₀.lowTabs dir is := State.lowTabs_cons ht
      have hmiss : s.missing new i ≤ 1 := State.missing_le_one
      have hcopy : s.copyTab kmallocAp dir new i =
          exec (fun s p => if (s.tabs ((s₀.dirs dir).tables i) p).addr ≠ 0 then
            s.copyPage kmallocAp new i p else .ok s) s (List.finRange 1024) := by
        rw [State.copyTab, htab, if_pos ht]
      rcases @Copying.row _ kmallocAp s₀ s dir new (k - 1) n i hC hi ht (List.finRange 1024) h (by omega)
        (hroom.mono (by omega)) with hfault | ⟨s₁, hok, h₁, hroom₁⟩
      · exact .inl (exec_cons_error (hcopy.trans hfault))
      · rw [exec_cons (hcopy.trans hok), ← Nat.add_assoc]
        exact ih hrest h₁ (by omega) (by omega : s₀.lowTabs dir is ≤ k - 1) (hroom₁.mono (by omega))

end

/-! ## The whole copy -/

/-- On the way from `s` to `s'` the directories `ds` were joined by `new`, a copy of `dir`. -/
structure Joined (s s' : State σ) (ds : List Nat) (dir new : Nat) : Prop where
  spaces : Spaces s' (new :: ds)
  fresh : Fresh s'.log
  housed : ∀ r ∈ s'.log, s'.Housed r
  log : s.log <:+ s'.log
  kern : s'.kernDir = s.kernDir
  cur : s'.currentDir = s.currentDir
  scratch : s.lowPages dir ≠ [] → (s'.dirs s.currentDir).tables 896 ≠ 0
  grows : ∀ d ∈ ds, ∀ i, (s.dirs d).tables i ≠ 0 → (s'.dirs d).tables i = (s.dirs d).tables i
  upper : (s.dirs s.kernDir).tables 896 ≠ 0 → ∀ d ∈ ds, ∀ i : Fin 1024, 768 ≤ i.val →
    (s'.dirs d).tables i = (s.dirs d).tables i

section
variable {kmallocAp : σ → Nat → Nat × Nat × σ} {s s' : State σ} {ds : List Nat} {dir d n : Nat}
  {i : Fin 1024}

/-- What was allocated is known by its address. -/
lemma Fresh.addr_inj {r r' : Region} {log : List Region} (h : Fresh log) (hr : r ∈ log)
    (hr' : r' ∈ log) (ha : r.addr = r'.addr) : r = r' := by
  induction log with
  | nil => cases hr
  | cons a log ih =>
    rcases List.mem_cons.mp hr with rfl | hm <;> rcases List.mem_cons.mp hr' with rfl | hm'
    · rfl
    · exact absurd ha.symm (h.head_ne hm')
    · exact absurd ha (h.head_ne hm)
    · exact ih (h.suffix (List.suffix_cons ..)) hm hm'

/-- The entry for the kernel determines the one for the processor. -/
lemma Agrees.unique {log : List Region} {t e e' : Nat} (h : Agrees log t e) (h' : Agrees log t e')
    (hf : Fresh log) : e = e' := by
  rcases h with ⟨rfl, rfl⟩ | ⟨r, hr, -, ha, rfl⟩
  · exact (h'.of_zero hf).symm
  · rcases h' with ⟨rfl, rfl⟩ | ⟨r', hr', -, ha', rfl⟩
    · exact absurd ha (hf.valid r hr).1
    · rw [hf.addr_inj hr hr' (ha.trans ha'.symm)]

/-- All directories have the same upper half for the processor, too. -/
lemma Spaces.physTabs (h : Spaces s ds) (hf : Fresh s.log) (hd : d ∈ ds) (hi : 768 ≤ i.val) :
    (s.dirs d).physTabs i = (s.dirs s.kernDir).physTabs i := by
  have hdir := h.inv.entry d (h.isDir d hd) i
  rw [h.upper d hd i hi] at hdir
  exact hdir.unique (h.inv.entry _ (h.isDir _ h.kern) i) hf

/-- In the upper half all directories have the same entries. -/
lemma Spaces.entry_upper (h : Spaces s ds) (hd : d ∈ ds) (hi : 768 ≤ i.val) (p : Fin 1024) :
    s.entry d i p = s.entry s.kernDir i p := by
  rw [State.entry, State.entry, h.upper d hd i hi]

/-- The loops start with an empty directory. -/
lemma Spaces.copying {s₁ : State σ} {new : Nat} (hS : Spaces s ds) (hdir : dir ∈ ds)
    (hk : Keeps s s₁) (hf : Fresh s₁.log) (hnew : s₁.IsDir new) (hne : ∀ d, s.IsDir d → new ≠ d)
    (hold : ∀ d, d ≠ new → s₁.dirs d = s.dirs d) (hzero : ∀ j, (s₁.dirs new).tables j = 0)
    (htabs : s₁.tabs = s.tabs) (hfr : s₁.frames = s.frames) : Copying s₁ dir new := by
  have hdirs : ∀ d ∈ ds, s₁.dirs d = s.dirs d := fun d hd => hold d (hne d (hS.isDir d hd)).symm
  have hcur : s₁.currentDir = s.currentDir := hk.cur
  refine ⟨hk.inv hf hS.inv, hcur ▸ (hS.isDir _ hS.cur).mono hk.log, (hS.isDir _ hdir).mono hk.log,
    hnew, hcur ▸ hne _ (hS.isDir _ hS.cur), hne _ (hS.isDir _ hdir), hzero, fun i hi => ?_, ?_,
    hfr ▸ hS.bits, hfr ▸ hS.zero⟩
  · rw [hcur]
    exact (hS.own dir hdir _ hS.cur i 896 hi (low_ne hi)).symm.congr (by rw [hdirs _ hS.cur])
      (by rw [hdirs _ hdir])
  · have hentry : s₁.entry s.currentDir 896 0 = s.entry s.currentDir 896 0 := by
      rw [State.entry, State.entry, hdirs _ hS.cur, htabs]
    rw [hcur, hentry, hS.entry_upper hS.cur (by decide)]
    exact hS.scratch

/-- When the pages have been copied and the kernel's tables are shared, the new directory is one of
the address spaces. -/
lemma Spaces.joined {s₁ s₂ : State σ} {new k : Nat} (hS : Spaces s ds) (hdir : dir ∈ ds)
    (hone : (s.dirs s.kernDir).tables 896 ≠ 0 ∨ ds = [s.kernDir]) (hk : Keeps s s₁)
    (hne : ∀ d, s.IsDir d → new ≠ d) (hold : ∀ d, d ≠ new → s₁.dirs d = s.dirs d)
    (hfr : s₁.frames = s.frames) (hC : Copying s₁ dir new) (h : Spread s₁ s₂ new k)
    (hmade : s.lowPages dir ≠ [] → 0 < k) (hf : Fresh s₂.log)
    (hh : ∀ r ∈ s₂.log, s.Housed r) (S : Shares s₂ s' new ((List.finRange 1024).drop 768)) (hI : Inv s') :
    Joined s s' ds dir new := by
  have hnd : ∀ d ∈ ds, d ≠ new := fun d hd => (hne d (hS.isDir d hd)).symm
  have hdirs : ∀ d ∈ ds, s₁.dirs d = s.dirs d := fun d hd => hold d (hnd d hd)
  have hisDir : ∀ d ∈ ds, s₁.IsDir d := fun d hd => (hS.isDir d hd).mono hk.log
  have hcur : s₁.currentDir = s.currentDir := hk.cur
  have hkern : s₂.kernDir = s.kernDir := h.keeps.kern.trans hk.kern
  -- the old directories
  have hgrows : ∀ d ∈ ds, ∀ i, (s.dirs d).tables i ≠ 0 →
      (s'.dirs d).tables i = (s.dirs d).tables i := by
    intro d hd i hi
    rw [S.other d (hnd d hd), ← hdirs d hd]
    exact (h.grows d i (by rwa [hdirs d hd])).1
  have htable : ∀ d ∈ ds, ∀ i, (d, i) ≠ (s.currentDir, (896 : Fin 1024)) →
      (s'.dirs d).tables i = (s.dirs d).tables i := by
    intro d hd i hi
    rw [S.other d (hnd d hd), ← hdirs d hd]
    exact h.table d i (hcur ▸ hi) fun e => absurd e (hnd d hd)
  have hupper : (s.dirs s.kernDir).tables 896 ≠ 0 → ∀ d ∈ ds, ∀ i : Fin 1024, 768 ≤ i.val →
      (s'.dirs d).tables i = (s.dirs d).tables i := by
    intro h0 d hd i hi
    by_cases hdi : (d, i) = (s.currentDir, (896 : Fin 1024))
    · obtain ⟨rfl, rfl⟩ := Prod.mk.inj hdi
      exact hgrows _ hd _ (by rwa [hS.upper _ hd _ hi])
    · exact htable d hd i hdi
  have hsame : ∀ d ∈ ds, ∀ i : Fin 1024, 768 ≤ i.val →
      (s'.dirs d).tables i = (s'.dirs s.kernDir).tables i := by
    intro d hd i hi
    rcases hone with h0 | rfl
    · rw [hupper h0 d hd i hi, hupper h0 _ hS.kern i hi, hS.upper d hd i hi]
    · rw [List.mem_singleton.mp hd]
  -- the new one
  have hlow : ∀ i : Fin 1024, i.val < 768 → (s'.dirs new).tables i = (s₂.dirs new).tables i := by
    intro i hi
    have he := S.entry i
    rw [if_neg fun hm => absurd (mem_high.mp hm.1) (by omega)] at he
    exact (Prod.mk.inj he).1
  have hhigh : ∀ i : Fin 1024, 768 ≤ i.val →
      (s'.dirs new).tables i = (s'.dirs s.kernDir).tables i := by
    intro i hi
    have he := S.entry i
    rw [hkern] at he
    rw [S.other _ (hnd _ hS.kern)]
    by_cases h0 : (s₂.dirs s.kernDir).tables i = 0
    · rw [if_neg fun hm => hm.2 h0] at he
      rw [(Prod.mk.inj he).1, h0, h.table new i (fun e => hC.neCur (Prod.mk.inj e).1) fun _ => hi,
        hC.empty]
    · rw [if_pos ⟨mem_high.mpr hi, h0⟩] at he
      exact (Prod.mk.inj he).1
  have hnew : ∀ i b, s₁.IsDir b.1 → (new, i) ≠ b → s₂.Sep (new, i) b := fun i b hb hib =>
    h.sep _ _ hC.isNew hb hib (.inl (hC.empty i))
  have hown : ∀ d ∈ new :: ds, ∀ e ∈ ds, ∀ i j : Fin 1024, i.val < 768 → (d, i) ≠ (e, j) →
      s'.Sep (d, i) (e, j) := by
    intro d hd e he i j hi hij
    have hej : (s'.dirs e).tables j = (s₂.dirs e).tables j := by rw [S.other e (hnd e he)]
    rcases List.mem_cons.mp hd with rfl | hd
    · exact (hnew i _ (hisDir e he) hij).congr (hlow i hi) hej
    · refine (h.sep _ _ (hisDir d hd) (hisDir e he) hij ?_).congr (by rw [S.other d (hnd d hd)]) hej
      exact (hS.own d hd e he i j hi hij).congr (by rw [hdirs d hd]) (by rw [hdirs e he])
  have hsz : s'.frames.sz = s.frames.sz := by rw [S.frames, h.sz, hfr]
  have hused : ∀ f, Frames.get s.frames f = true → Frames.get s'.frames f = true := by
    rw [S.frames, ← hfr]
    exact h.used
  refine ⟨⟨hI, fun d hd => ?_, ?_, ?_, fun d hd i hi => ?_, fun d hd e he i j hi hij => ?_, ?_,
    hsz ▸ hS.bits, hused 0 hS.zero⟩, S.log ▸ hf,
    fun r hr => (hh r (S.log ▸ hr)).mono hsz hused, S.log ▸ hk.log.trans h.keeps.log,
    S.kern.trans hkern,
    (S.cur.trans h.keeps.cur).trans hcur, fun hp => ?_, hgrows, hupper⟩
  · have hmono : s₁.log <:+ s'.log := S.log ▸ h.keeps.log
    rcases List.mem_cons.mp hd with rfl | hd
    · exact hC.isNew.mono hmono
    · exact (hisDir d hd).mono hmono
  · rw [S.kern, hkern]
    exact List.mem_cons_of_mem _ hS.kern
  · rw [S.cur, h.keeps.cur, hcur]
    exact List.mem_cons_of_mem _ hS.cur
  · rw [S.kern, hkern]
    rcases List.mem_cons.mp hd with rfl | hd
    · exact hhigh i hi
    · exact hsame d hd i hi
  · rcases List.mem_cons.mp he with rfl | he
    · by_cases hj : j.val < 768
      · rcases List.mem_cons.mp hd with rfl | hd
        · exact (hnew i _ hC.isNew hij).congr (hlow i hi) (hlow j hj)
        · exact (hnew j _ (hisDir d hd) hij.symm).symm.congr (by rw [S.other d (hnd d hd)])
            (hlow j hj)
      · have hsep := hown d hd _ hS.kern i j hi fun e => by
          rw [(Prod.mk.inj e).2] at hi
          exact hj hi
        unfold State.Sep at hsep ⊢
        rwa [hhigh j (by omega)]
    · exact hown d hd e he i j hi hij
  · have hcur' : s'.entry s'.kernDir 896 0 = s₂.entry s₁.currentDir 896 0 := by
      have ht := hsame _ hS.cur 896 (by decide)
      rw [S.kern, hkern, hcur, State.entry, ← ht, S.other _ (hnd _ hS.cur), S.tabs, ← State.entry]
    rw [hcur']
    exact h.scratch hC.scratch
  · rw [S.other _ (hnd _ hS.cur), ← hcur]
    exact h.made (hmade hp)

/-- `copy_pg_dir` in any address space: as long as there is a free frame for every page below
`0xC0000000`, and memory for the new directory and its tables that is in no free frame, it ends in a
page fault, or the new directory is one more. -/
theorem copyPgDir_joins (hS : Spaces s ds) (hdir : dir ∈ ds)
    (hone : (s.dirs s.kernDir).tables 896 ≠ 0 ∨ ds = [s.kernDir])
    (htabs : s.lowTabs dir ((List.finRange 1024).take 768) ≤ n)
    (hroom : Supplies kmallocAp s.Housed (.pgDir :: List.replicate (n + 1) .pgTab) s.heap s.log)
    (hfree : (s.lowPages dir).length ≤ (freeFrames s.frames).length) :
    s.copyPgDir kmallocAp dir = .error .pageFault ∨
      ∃ new s', s.copyPgDir kmallocAp dir = .ok (new, s') ∧ Joined s s' ds dir new := by
  have hroom₁ := newPgDir_room hroom
  obtain ⟨new, s₁, hnew, hkeeps, hisNew, hne, hold, hzero, htabs₁, hframes₁, -⟩ :=
    newPgDir_spec (hroom₁.here.1)
  rw [hnew] at hroom₁
  have hC := hS.copying hdir hkeeps hroom₁.here.1 hisNew hne hold hzero htabs₁ hframes₁
  have hsrc : s₁.dirs dir = s.dirs dir := hold dir (hne dir (hS.isDir dir hdir)).symm
  have hentry : s₁.entry dir = s.entry dir := by
    funext i p
    rw [State.entry, State.entry, hsrc, htabs₁]
  have hrows : s₁.rowPages dir = s.rowPages dir := by
    funext i ps
    rw [State.rowPages, State.rowPages, hentry]
  have hpages : ((List.finRange 1024).take 768).flatMap
      (fun i => s₁.rowPages dir i (List.finRange 1024)) = s.lowPages dir := by
    rw [State.lowPages, hrows]
  have hhoused : s₁.Housed = s.Housed := by
    funext r
    rw [State.Housed, State.Housed, hframes₁]
  have hmiss : s₁.missing s₁.currentDir 896 ≤ 1 := State.missing_le_one
  have hlowTabs : s₁.lowTabs dir = s.lowTabs dir := by
    funext is
    rw [State.lowTabs, State.lowTabs, hsrc]
  rcases hC.rows (fun i => mem_low.mp) .refl (by rw [hpages, hframes₁, Nat.zero_add]; exact hfree)
    (hlowTabs ▸ htabs) (hhoused ▸ hroom₁.mono (by omega)) with hfault | ⟨s₂, hrun₂, h, hroom₂⟩
  · refine .inl ?_
    rw [State.copyPgDir, hnew]
    show exec (State.copyTab kmallocAp dir new) s₁ _ >>= _ = _
    rw [hfault, error_bind]
  · rw [hpages, Nat.zero_add] at h
    have hkn : s₂.kernDir ≠ new := by
      rw [h.keeps.kern, hkeeps.kern]
      exact (hne _ (hS.isDir _ hS.kern)).symm
    obtain ⟨s', hrun', S⟩ := shareTabs_spec (l := (List.finRange 1024).drop 768) hkn
    have hrun : s.copyPgDir kmallocAp dir = .ok (new, s') := by
      rw [State.copyPgDir, hnew]
      exact bind_ok.mpr ⟨s₂, hrun₂, bind_ok.mpr ⟨s', hrun', rfl⟩⟩
    have hf : Fresh s₂.log := hroom₂.here.1
    have hI : Inv s' := (keeps_copyPgDir (hS.isDir _ hS.kern) hrun).inv (S.log ▸ hf) hS.inv
    have hh : ∀ r ∈ s₂.log, s.Housed r := fun r hr => hhoused ▸ hroom₂.here.2 r hr
    exact .inr ⟨new, s', hrun, hS.joined hdir hone hkeeps hne hold hframes₁ hC h
      List.length_pos_of_ne_nil hf hh S hI⟩

/-- The heap is no part of the address spaces. -/
lemma Spaces.setHeap (h : Spaces s ds) (heap : σ) : Spaces { s with heap := heap } ds := by
  obtain ⟨hI, h₁, h₂, h₃, h₄, h₅, h₆, h₇, h₈⟩ := h
  exact ⟨⟨hI.phys, hI.entry⟩, h₁, h₂, h₃, h₄, h₅, h₆, h₇, h₈⟩

/-- A copy among the address spaces can be copied when it is loaded. -/
lemma Copied.copyable {new : Nat} (h : Copied s s' dir new) (hS : Spaces s' (new :: ds))
    (hsc : (s'.entry s'.kernDir 896 0).present = false) :
    Copyable (s'.switchPageDirectory new) new where
  cur := rfl
  isDir := h.isDir
  kern := hS.isDir _ hS.kern
  inv := ⟨h.inv.phys, h.inv.entry⟩
  bits := hS.bits
  zero := hS.zero
  scratch := by
    show (s'.entry new 896 0).addr = 0 ∧ (s'.entry new 896 0).present = false
    rw [hS.entry_upper (List.mem_cons_self ..) (by decide)]
    exact ⟨hS.scratch, hsc⟩
  apart := fun i hi => (hS.own _ (List.mem_cons_self ..) _ (List.mem_cons_self ..) i 896 hi
    (low_ne hi)).symm
  present := fun i p hi ha => (h.present i p hi (h.addr_ne hi ha)).1
  held := fun i p hi ha => (h.frames _).mpr (.inr ⟨i, p, hi, h.addr_ne hi ha, rfl⟩)

end

end ToeS.Vmm
