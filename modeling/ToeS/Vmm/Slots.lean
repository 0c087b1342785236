import ToeS.Vmm.Walk

/-!
# Effects on page entries

What `get_page`, `map_page`, `unmap_page` and `memcpy` do, one lemma for each, in terms of the entries
that directories have. A slot is a directory with an index, `entry` the page entry that is found
there, and slots are apart (`Sep`) when they do not share a table. An operation at one slot leaves
the entries at all slots apart from it alone.

`Supplies` is what is asked of `kmalloc_ap` ahead of a piece of code: that it can serve a list of
requests, with memory that is fresh and has a property `P`.
-/

namespace ToeS.Vmm
open Lib Frames

variable {σ : Type}

/-! ## Entries -/

namespace State

/-- The entry that the directory `d` has for the page `p` of the table with the index `i`. -/
def entry (s : State σ) (d : Nat) (i p : Fin 1024) : Page :=
  if (s.dirs d).tables i = 0 then Page.zero else s.tabs ((s.dirs d).tables i) p

/-- Two slots have no table in common. -/
def Sep (s : State σ) (a b : Nat × Fin 1024) : Prop :=
  (s.dirs a.1).tables a.2 = 0 ∨ (s.dirs a.1).tables a.2 ≠ (s.dirs b.1).tables b.2

end State

section
variable {s s' s'' : State σ} {d : Nat} {i p : Fin 1024} {a b : Nat × Fin 1024}

/-- The entry of a page that has a table. -/
lemma State.entry_of_ne (h : (s.dirs d).tables i ≠ 0) :
    s.entry d i p = s.tabs ((s.dirs d).tables i) p := if_neg h

/-- A page is mapped when its entry is present. -/
lemma State.mapped_iff {va : Nat} :
    s.Mapped d va ↔ (s.entry d (pdIdx va) (ptIdx va)).present = true := by
  unfold State.Mapped State.entry
  split
  · rename_i h
    simp [h, Page.zero]
  · rename_i h
    simp [h]

/-- What the software walk finds. -/
lemma State.getPhysical_entry {va : Nat} (hd : d ≠ 0) (hm : s.Mapped d va) :
    s.getPhysical va d = (s.entry d (pdIdx va) (ptIdx va)).addr * 4096 + va % 4096 := by
  rw [State.getPhysical_eq hd hm.1, State.entry_of_ne hm.1]

/-- Separation is symmetric. -/
lemma State.Sep.symm (h : s.Sep a b) : s.Sep b a := by
  unfold State.Sep at *
  by_cases hb : (s.dirs b.1).tables b.2 = 0
  · exact .inl hb
  · refine .inr fun e => ?_
    rcases h with h | h
    · exact hb (e.trans h)
    · exact h e.symm

/-- Where tables are the same, so is being apart. -/
lemma State.Sep.congr (h : s.Sep a b) (ha : (s'.dirs a.1).tables a.2 = (s.dirs a.1).tables a.2)
    (hb : (s'.dirs b.1).tables b.2 = (s.dirs b.1).tables b.2) : s'.Sep a b := by
  unfold State.Sep
  rw [ha, hb]
  exact h

/-- Indices and addresses of pages. -/
lemma pdIdx_idx2pg {n : Nat} (hn : n < 4096) : pdIdx (u32 (idx2pg i p + n)) = i := by
  have := i.isLt
  have := p.isLt
  unfold idx2pg pdIdx
  rw [u32_eq (by omega)]
  ext
  show (i.val * 4194304 + p.val * 4096 + n) / 4194304 % 1024 = i.val
  omega

/-- A byte of a page has the second index of the page. -/
lemma ptIdx_idx2pg {n : Nat} (hn : n < 4096) : ptIdx (u32 (idx2pg i p + n)) = p := by
  have := i.isLt
  have := p.isLt
  unfold idx2pg ptIdx
  rw [u32_eq (by omega)]
  ext
  show (i.val * 4194304 + p.val * 4096 + n) / 4096 % 1024 = p.val
  omega

/-- The address of a page is one of 32 bits. -/
lemma idx2pg_lt : idx2pg i p < 4294967296 := by
  have := i.isLt
  have := p.isLt
  unfold idx2pg
  omega

/-- A byte of a page has its place in it. -/
lemma idx2pg_mod {n : Nat} (hn : n < 4096) : u32 (idx2pg i p + n) % 4096 = n := by
  have := i.isLt
  have := p.isLt
  unfold idx2pg
  rw [u32_eq (by omega)]
  omega

end

/-! ## Memory off the tables -/

/-- No table or directory lies in the frame `f`. -/
def Off (log : List Region) (f : Nat) : Prop := ∀ r ∈ log, ∀ x, r.Has x → x / 4096 ≠ f

/-- A frame that holds no table later holds none now. -/
lemma Off.mono {log log' : List Region} {f : Nat} (h : Off log' f) (hl : log <:+ log') : Off log f :=
  fun r hr => h r (hl.mem hr)

section
variable {s : State σ}

/-- The byte of a word. -/
lemma byte_readWord {m : Mem} {a k : Nat} (hk : k < 4) (ha : a + 4 ≤ 4294967296) :
    UInt8.ofNat (readWord m a / 256 ^ k) = m (a + k) := by
  have h0 := (m a).toNat_lt
  have h1 := (m (a + 1)).toNat_lt
  have h2 := (m (a + 2)).toNat_lt
  have h3 := (m (a + 3)).toNat_lt
  rw [← UInt8.toNat_inj, UInt8.toNat_ofNat', readWord, u32_eq (n := a) (by omega),
    u32_eq (n := a + 1) (by omega), u32_eq (n := a + 2) (by omega), u32_eq (n := a + 3) (by omega)]
  obtain rfl | rfl | rfl | rfl : k = 0 ∨ k = 1 ∨ k = 2 ∨ k = 3 := by omega
  all_goals
    simp only [Nat.reducePow, Nat.add_zero]
    omega

/-- Off the tables, physical memory is `ram`. -/
lemma State.physByte_off {x : Nat} (hx : x < 4294967296) (hoff : Off s.log (x / 4096)) :
    s.physByte x = s.ram x := by
  have hfind : s.log.find? (fun r => r.Has (x - x % 4)) = none := by
    refine List.find?_eq_none.mpr fun r hr hhas => ?_
    exact hoff r hr _ (of_decide_eq_true hhas) (by omega)
  have hword := byte_readWord (m := s.ram) (Nat.mod_lt x (by decide : 0 < 4))
    (by omega : x - x % 4 + 4 ≤ 4294967296)
  rw [State.physByte, State.physWord, hfind]
  exact hword.trans (congrArg s.ram (by omega))

end

/-! ## What `kmalloc_ap` is asked for -/

/-- `kmalloc_ap` serves the requests `objs` one after the other, with memory that is fresh and has the
property `P`. -/
def Supplies (kmallocAp : σ → Nat → Nat × Nat × σ) (P : Region → Prop) :
    List Obj → σ → List Region → Prop
  | [], _, log => Fresh log ∧ ∀ r ∈ log, P r
  | o :: objs, heap, log =>
    let (addr, phys, heap) := kmallocAp heap o.size
    Supplies kmallocAp P objs heap (⟨o, addr, phys⟩ :: log)

section
variable {kmallocAp : σ → Nat → Nat × Nat × σ} {P : Region → Prop} {heap : σ} {log : List Region}

/-- What is allocated so far is fresh and meets the condition. -/
lemma Supplies.here {objs : List Obj} (h : Supplies kmallocAp P objs heap log) :
    Fresh log ∧ ∀ r ∈ log, P r := by
  induction objs generalizing heap log with
  | nil => exact h
  | cons o objs ih =>
    obtain ⟨hf, hP⟩ := ih h
    exact ⟨hf.suffix (List.suffix_cons ..), fun r hr => hP r (List.mem_cons_of_mem _ hr)⟩

/-- A heap that serves more requests serves the first ones. -/
lemma Supplies.left {objs objs' : List Obj} (h : Supplies kmallocAp P (objs ++ objs') heap log) :
    Supplies kmallocAp P objs heap log := by
  induction objs generalizing heap log with
  | nil => exact h.here
  | cons o objs ih => exact ih h

/-- A weaker condition is met as well. -/
lemma Supplies.imp {P' : Region → Prop} {objs : List Obj} (h : Supplies kmallocAp P objs heap log)
    (hP : ∀ r, P r → P' r) : Supplies kmallocAp P' objs heap log := by
  induction objs generalizing heap log with
  | nil => exact ⟨h.1, fun r hr => hP r (h.2 r hr)⟩
  | cons o objs ih => exact ih h

/-- Room for `k` more tables. -/
def State.Room (kmallocAp : σ → Nat → Nat × Nat × σ) (P : Region → Prop) (s : State σ) (k : Nat) :
    Prop :=
  Supplies kmallocAp P (List.replicate k .pgTab) s.heap s.log

/-- Room for more tables is room for fewer. -/
lemma State.Room.mono {s : State σ} {k k' : Nat} (h : s.Room kmallocAp P k) (hk : k' ≤ k) :
    s.Room kmallocAp P k' := by
  obtain ⟨n, rfl⟩ := Nat.exists_eq_add_of_le hk
  unfold State.Room at *
  rw [List.replicate_add] at h
  exact h.left

/-- Room depends on the heap and on what is allocated. -/
lemma State.Room.congr {s s' : State σ} {k : Nat} (h : s.Room kmallocAp P k)
    (hheap : s'.heap = s.heap) (hlog : s'.log = s.log) : s'.Room kmallocAp P k := by
  unfold State.Room
  rw [hheap, hlog]
  exact h

end

/-! ## `get_page` -/

/-- `s'` is `s` with a table in the slot `(d, i)`, new and empty if there was none. -/
structure Reach (s s' : State σ) (d : Nat) (i : Fin 1024) : Prop where
  keeps : Keeps s s'
  ne : (s'.dirs d).tables i ≠ 0
  table : ∀ d' j, (d', j) ≠ (d, i) → (s'.dirs d').tables j = (s.dirs d').tables j
  entry : ∀ d', s.IsDir d' → ∀ j q, s'.entry d' j q = s.entry d' j q
  sep : ∀ a b, s.IsDir a.1 → s.IsDir b.1 → a ≠ b → s.Sep a b → s'.Sep a b
  frames : s'.frames = s.frames
  ram : s'.ram = s.ram

/-- One if the slot has no table. -/
def State.missing (s : State σ) (d : Nat) (i : Fin 1024) : Nat :=
  if (s.dirs d).tables i = 0 then 1 else 0

section
variable {kmallocAp : σ → Nat → Nat × Nat × σ} {P : Region → Prop} {s s' : State σ} {d : Nat}
  {i p : Fin 1024} {k : Nat}

/-- At most one table is missing for a page. -/
lemma State.missing_le_one : s.missing d i ≤ 1 := by
  unfold State.missing
  split <;> omega

/-- Tables are memory that was handed out. -/
lemma Inv.table_mem (hI : Inv s) (hd : s.IsDir d) (h : (s.dirs d).tables i ≠ 0) :
    ∃ r ∈ s.log, r.addr = (s.dirs d).tables i := by
  rcases hI.entry d hd i with ⟨h0, -⟩ | ⟨r, hr, -, ha, -⟩
  · exact absurd h0 h
  · exact ⟨r, hr, ha⟩

/-- Memory that was handed out last is at an address of its own. -/
lemma Fresh.head_ne {r r' : Region} {log : List Region} (h : Fresh (r :: log)) (hr : r' ∈ log) :
    r'.addr ≠ r.addr := by
  intro e
  have := ((List.pairwise_cons.mp h.apart).1 r' hr).1
  have := r.obj.size_pos
  have := r'.obj.size_pos
  omega

/-- `get_page` reaches the page, with a new table if there was none. -/
lemma getPage_spec {va : Nat} (hI : Inv s) (hd : s.IsDir d)
    (hr : s.Room kmallocAp P (s.missing d (pdIdx va) + k)) :
    ∃ s', s.getPage kmallocAp va 1 d = (some ((s'.dirs d).tables (pdIdx va), ptIdx va), s') ∧
      Reach s s' d (pdIdx va) ∧ s'.Room kmallocAp P k := by
  have hkeeps : Keeps s (s.getPage kmallocAp va 1 d).2 := keeps_getPage
  by_cases h : (s.dirs d).tables (pdIdx va) = 0
  · obtain ⟨r, s₁, hs₁⟩ : ∃ r s₁, s.alloc kmallocAp .pgTab = (r, s₁) := ⟨_, _, rfl⟩
    have hlog : s₁.log = r :: s.log := by cases hs₁; rfl
    have hdirs : s₁.dirs = s.dirs := by cases hs₁; rfl
    have htabs : s₁.tabs = s.tabs := by cases hs₁; rfl
    have hroom : s₁.Room kmallocAp P k := by
      rw [State.missing, if_pos h, Nat.add_comm] at hr
      cases hs₁
      exact hr
    obtain ⟨s₂, hs₂⟩ : ∃ s₂, s₂ = (s₁.setTab r.addr fun _ => Page.zero).setEntry d (pdIdx va) r.addr
      (r.phys ||| pdeP ||| pdeW ||| pdeU) := ⟨_, rfl⟩
    have hrun : s.getPage kmallocAp va 1 d = (some (r.addr, ptIdx va), s₂) := by
      rw [State.getPage, if_neg (not_not.mpr h), if_pos (by decide), hs₁, hs₂]
    rw [hrun] at hkeeps ⊢
    have hfresh : Fresh (r :: s.log) := hlog ▸ hroom.here.1
    have hne : r.addr ≠ 0 := (hfresh.valid r (by simp)).1
    have hself : (s₂.dirs d).tables (pdIdx va) = r.addr := by
      rw [hs₂]
      simp [State.setEntry, State.setDir]
    have htable : ∀ d' j, (d', j) ≠ (d, pdIdx va) →
        (s₂.dirs d').tables j = (s.dirs d').tables j := by
      intro d' j hdj
      rw [hs₂, ← hdirs]
      by_cases hd' : d' = d
      · subst hd'
        have hj : j ≠ pdIdx va := fun e => hdj (by rw [e])
        simp [State.setEntry, State.setDir, State.setTab, hj]
      · simp [State.setEntry, State.setDir, State.setTab, hd']
    have hold : ∀ d', s.IsDir d' → ∀ j, (s.dirs d').tables j ≠ r.addr := by
      intro d' hd' j e
      obtain ⟨r', hr', he⟩ := hI.table_mem hd' (by rw [e]; exact hne)
      exact hfresh.head_ne hr' (he.trans e)
    refine ⟨s₂, by rw [hself], ⟨hkeeps, hself ▸ hne, htable, fun d' hd' j q => ?_,
      fun a b ha hb hab hsep => ?_, ?_, ?_⟩, ?_⟩
    · have htabs₂ : ∀ t, t ≠ r.addr → s₂.tabs t = s.tabs t := fun t ht => by
        rw [hs₂, ← htabs]
        simp [State.setEntry, State.setDir, State.setTab, ht]
      by_cases hdj : (d', j) = (d, pdIdx va)
      · obtain ⟨rfl, rfl⟩ := Prod.mk.inj hdj
        rw [State.entry, State.entry, hself, if_neg hne, if_pos h, hs₂]
        simp [State.setEntry, State.setDir, State.setTab]
      · rw [State.entry, State.entry, htable d' j hdj, htabs₂ _ (hold d' hd' j)]
    · by_cases ha' : a = (d, pdIdx va)
      · subst ha'
        have hb' : (s₂.dirs b.1).tables b.2 = (s.dirs b.1).tables b.2 := htable _ _ hab.symm
        refine .inr ?_
        rw [hself, hb']
        exact (hold b.1 hb b.2).symm
      · by_cases hb' : b = (d, pdIdx va)
        · subst hb'
          have ha' : (s₂.dirs a.1).tables a.2 = (s.dirs a.1).tables a.2 := htable _ _ hab
          refine .inr ?_
          rw [hself, ha']
          exact hold a.1 ha a.2
        · exact hsep.congr (htable _ _ ha') (htable _ _ hb')
    · rw [hs₂]
      cases hs₁
      rfl
    · rw [hs₂]
      cases hs₁
      rfl
    · exact hroom.congr (by rw [hs₂]; rfl) (by rw [hs₂]; rfl)
  · have hrun : s.getPage kmallocAp va 1 d =
        (some ((s.dirs d).tables (pdIdx va), ptIdx va), s) := by
      rw [State.getPage, if_pos h]
    refine ⟨s, hrun, ⟨.refl, h, fun _ _ _ => rfl, fun _ _ _ _ => rfl, fun _ _ _ _ _ h => h, rfl,
      rfl⟩, hr.mono (Nat.le_add_left ..)⟩

/-! ## Storing an entry -/

/-- `s'` is `s` with the entry `v` for the page `p` at the slot `(d, i)`, which has a table. -/
structure Puts (s s' : State σ) (d : Nat) (i p : Fin 1024) (v : Page) : Prop where
  keeps : Keeps s s'
  ne : (s'.dirs d).tables i ≠ 0
  table : ∀ d' j, (d', j) ≠ (d, i) → (s'.dirs d').tables j = (s.dirs d').tables j
  self : s'.entry d i p = v
  row : ∀ q, q ≠ p → s'.entry d i q = s.entry d i q
  entry : ∀ d', s.IsDir d' → ∀ j q, (d', j) ≠ (d, i) → s.Sep (d, i) (d', j) →
    s'.entry d' j q = s.entry d' j q
  sep : ∀ a b, s.IsDir a.1 → s.IsDir b.1 → a ≠ b → s.Sep a b → s'.Sep a b

/-- A store to an entry of a table that is there. -/
lemma puts_setPage {v : Page} {fr : BitSet} (ht : (s.dirs d).tables i ≠ 0)
    (hs : s' = { s with frames := fr }.setPage ((s.dirs d).tables i, p) v) : Puts s s' d i p v := by
  have hdirs : s'.dirs = s.dirs := by rw [hs]; rfl
  have htabs : ∀ t q, s'.tabs t q =
      if t = (s.dirs d).tables i ∧ q = p then v else s.tabs t q := by
    intro t q
    rw [hs]
    simp only [State.setPage, Function.update_apply]
    split <;> rename_i h
    · subst h
      simp [Function.update_apply]
    · simp [h]
  refine ⟨.of_eq (by rw [hs]; rfl) hdirs (by rw [hs]; rfl) (by rw [hs]; rfl), by rw [hdirs]; exact ht,
    fun _ _ _ => by rw [hdirs], ?_, fun q hq => ?_, fun d' _ j q hdj hsep => ?_,
    fun a b _ _ _ h => h.congr (by rw [hdirs]) (by rw [hdirs])⟩
  · rw [State.entry, hdirs, if_neg ht, htabs, if_pos ⟨rfl, rfl⟩]
  · rw [State.entry_of_ne (by rwa [hdirs]), State.entry_of_ne ht, hdirs, htabs,
      if_neg fun h => hq h.2]
  · rw [State.entry, State.entry, hdirs, htabs]
    by_cases h0 : (s.dirs d').tables j = 0
    · rw [if_pos h0, if_pos h0]
    · rw [if_neg h0, if_neg h0, if_neg]
      rintro ⟨h, -⟩
      exact (hsep.resolve_left ht) h.symm

/-- An entry that is written after `get_page` is written all the same. -/
lemma Reach.puts {s₁ : State σ} {v : Page} (h : Reach s s₁ d i) (h' : Puts s₁ s' d i p v)
    (hd : s.IsDir d) : Puts s s' d i p v where
  keeps := h.keeps.trans h'.keeps
  ne := h'.ne
  table := fun d' j hdj => (h'.table d' j hdj).trans (h.table d' j hdj)
  self := h'.self
  row := fun q hq => (h'.row q hq).trans (h.entry d hd i q)
  entry := fun d' hd' j q hdj hsep => by
    have hd₁ : s₁.IsDir d' := hd'.mono h.keeps.log
    exact (h'.entry d' hd₁ j q hdj (h.sep _ _ hd hd' hdj.symm hsep)).trans (h.entry d' hd' j q)
  sep := fun a b ha hb hab hsep =>
    h'.sep a b (ha.mono h.keeps.log) (hb.mono h.keeps.log) hab (h.sep a b ha hb hab hsep)

/-- States that differ in the bitset, in `ram` and in `cr3` at most. -/
structure SameTabs (s s' : State σ) : Prop where
  heap : s'.heap = s.heap
  log : s'.log = s.log
  dirs : s'.dirs = s.dirs
  tabs : s'.tabs = s.tabs
  kern : s'.kernDir = s.kernDir
  cur : s'.currentDir = s.currentDir

/-- A state with the same tables keeps them. -/
lemma SameTabs.keeps (h : SameTabs s s') : Keeps s s' := .of_eq h.log h.dirs h.kern h.cur

/-- A state with the same tables has the same entries. -/
lemma SameTabs.entry (h : SameTabs s s') : s'.entry = s.entry := by
  funext d i p
  rw [State.entry, State.entry, h.dirs, h.tabs]

/-- A state with the same tables has the same directories. -/
lemma SameTabs.isDir (h : SameTabs s s') (hd : s.IsDir d) : s'.IsDir d :=
  hd.mono (h.log ▸ List.suffix_rfl)

/-- The state before a write may be replaced by one with the same tables. -/
lemma SameTabs.puts {s₁ : State σ} {v : Page} (h : SameTabs s s₁) (h' : Puts s₁ s' d i p v) :
    Puts s s' d i p v := by
  obtain ⟨hk, hne, ht, hself, hrow, hentry, hsep⟩ := h'
  rw [h.entry] at hrow hentry
  refine ⟨h.keeps.trans hk, hne, fun d' j hdj => by rw [ht d' j hdj, h.dirs], hself, hrow,
    fun d' hd' j q hdj hs => ?_, fun a b ha hb hab hs => ?_⟩
  · exact hentry d' (h.isDir hd') j q hdj (hs.congr (by rw [h.dirs]) (by rw [h.dirs]))
  · exact hsep a b (h.isDir ha) (h.isDir hb) hab (hs.congr (by rw [h.dirs]) (by rw [h.dirs]))

/-- The state after a write may be replaced by one with the same tables. -/
lemma Puts.same {s₁ : State σ} {v : Page} (h' : Puts s s₁ d i p v) (h : SameTabs s₁ s') :
    Puts s s' d i p v := by
  obtain ⟨hk, hne, ht, hself, hrow, hentry, hsep⟩ := h'
  rw [← h.entry] at hself hrow hentry
  refine ⟨hk.trans h.keeps, by rw [h.dirs]; exact hne, fun d' j hdj => by rw [h.dirs, ht d' j hdj],
    hself, hrow, hentry, fun a b ha hb hab hs => ?_⟩
  exact (hsep a b ha hb hab hs).congr (by rw [h.dirs]) (by rw [h.dirs])

/-- The second store to an entry counts. -/
lemma Puts.trans {s₁ : State σ} {v w : Page} (h : Puts s s₁ d i p v) (h' : Puts s₁ s' d i p w)
    (hd : s.IsDir d) : Puts s s' d i p w where
  keeps := h.keeps.trans h'.keeps
  ne := h'.ne
  table := fun d' j hdj => (h'.table d' j hdj).trans (h.table d' j hdj)
  self := h'.self
  row := fun q hq => (h'.row q hq).trans (h.row q hq)
  entry := fun d' hd' j q hdj hsep => by
    have hd₁ : s₁.IsDir d' := hd'.mono h.keeps.log
    exact (h'.entry d' hd₁ j q hdj (h.sep _ _ hd hd' hdj.symm hsep)).trans
      (h.entry d' hd' j q hdj hsep)
  sep := fun a b ha hb hab hsep =>
    h'.sep a b (ha.mono h.keeps.log) (hb.mono h.keeps.log) hab (h.sep a b ha hb hab hsep)

/-- The entry that `copy_pg_dir` makes for the frame `f`. -/
def Page.copied (f : Nat) : Page := ⟨true, true, false, Fin.ofNat _ f⟩

/-- `get_page` and `map_page` store what `map_page` makes of the entry. -/
lemma mapAt_puts {va : Nat} (frame : Nat) (hI : Inv s) (hd : s.IsDir d)
    (hr : s.Room kmallocAp P (s.missing d (pdIdx va) + k)) :
    ∃ s', s.mapAt kmallocAp va d frame = .ok (((s'.dirs d).tables (pdIdx va), ptIdx va), s') ∧
      Puts s s' d (pdIdx va) (ptIdx va)
        (mapPage s.frames (s.entry d (pdIdx va) (ptIdx va)) 1 1 frame).2 ∧
      s'.frames = (mapPage s.frames (s.entry d (pdIdx va) (ptIdx va)) 1 1 frame).1 ∧
      s'.ram = s.ram ∧ s'.Room kmallocAp P k := by
  obtain ⟨s₁, hrun, hreach, hroom⟩ := getPage_spec hI hd hr
  obtain ⟨pg, hpg⟩ : ∃ pg : PagePtr, pg = ((s₁.dirs d).tables (pdIdx va), ptIdx va) := ⟨_, rfl⟩
  have hentry : s₁.page pg = s.entry d (pdIdx va) (ptIdx va) := by
    rw [← hreach.entry d hd, State.entry_of_ne hreach.ne, hpg]
    rfl
  obtain ⟨r, hmap⟩ : ∃ r, r = mapPage s.frames (s.entry d (pdIdx va) (ptIdx va)) 1 1 frame := ⟨_, rfl⟩
  obtain ⟨s₂, hs₂⟩ : ∃ s₂, s₂ = s₁.mapPage pg 1 1 frame := ⟨_, rfl⟩
  have hs₂' : s₂ = { s₁ with frames := r.1 }.setPage pg r.2 := by
    rw [hs₂, State.mapPage, hentry, hreach.frames, ← hmap]
  have hdirs : s₂.dirs = s₁.dirs := by rw [hs₂']; rfl
  rw [← hmap]
  refine ⟨s₂, ?_, hreach.puts (puts_setPage hreach.ne (hpg ▸ hs₂')) hd, by rw [hs₂']; rfl,
    hreach.ram ▸ by rw [hs₂']; rfl, hroom.congr (by rw [hs₂']; rfl) (by rw [hs₂']; rfl)⟩
  rw [State.mapAt, hrun, hdirs, hs₂, hpg]

/-- `map_page` of a frame at an entry that has none. -/
lemma mapAt_spec {f : Nat} (va : Nat) (hI : Inv s) (hd : s.IsDir d)
    (hr : s.Room kmallocAp P (s.missing d (pdIdx va) + k))
    (hfree : (s.entry d (pdIdx va) (ptIdx va)).addr = 0) (h0 : f ≠ 0) (hf : f < bsGetSize s.frames) :
    ∃ s', s.mapAt kmallocAp va d (f * 4096) =
        .ok (((s'.dirs d).tables (pdIdx va), ptIdx va), s') ∧
      Puts s s' d (pdIdx va) (ptIdx va) (.copied f) ∧ s'.frames = bsSet s.frames f ∧
      s'.ram = s.ram ∧ s'.Room kmallocAp P k := by
  have hmap : mapPage s.frames (s.entry d (pdIdx va) (ptIdx va)) 1 1 (f * 4096) =
      (bsSet s.frames f, .copied f) := by
    rw [mapPage_at hfree h0 hf]
    rfl
  have hspec := mapAt_puts (f * 4096) hI hd hr
  rwa [hmap] at hspec

/-- `unmap_page` of an entry that has a frame. -/
lemma unmapPage_spec (ht : (s.dirs d).tables i ≠ 0) (hp : (s.entry d i p).addr ≠ 0) :
    Puts s (s.unmapPage ((s.dirs d).tables i, p)) d i p Page.zero ∧
      (s.unmapPage ((s.dirs d).tables i, p)).frames = bsClr s.frames (s.entry d i p).addr ∧
      (s.unmapPage ((s.dirs d).tables i, p)).ram = s.ram := by
  have hentry : s.page ((s.dirs d).tables i, p) = s.entry d i p := by
    rw [State.entry_of_ne ht]
    rfl
  have hun : s.unmapPage ((s.dirs d).tables i, p) =
      { s with frames := bsClr s.frames (s.entry d i p).addr }.setPage
        ((s.dirs d).tables i, p) Page.zero := by
    rw [State.unmapPage, hentry, unmapPage_held hp]
  exact ⟨puts_setPage ht hun, by rw [hun]; rfl, by rw [hun]; rfl⟩

end

/-! ## `memcpy` -/

section
variable {s : State σ} {d a f : Nat} {i p j q : Fin 1024}

/-- The memory after `n` bytes of the frame `a` have been copied to the frame `f`. -/
def copiedTo (m : Mem) (a f n : Nat) : Mem := fun x =>
  if f * 4096 ≤ x ∧ x < f * 4096 + n then m (a * 4096 + (x - f * 4096)) else m x

/-- One byte more of the copy. -/
lemma writeByte_copiedTo {m : Mem} {n : Nat} (haf : a ≠ f) (hf : f < 1048576) (hn : n < 4096) :
    writeByte (copiedTo m a f n) (f * 4096 + n) (copiedTo m a f n (a * 4096 + n)) =
      copiedTo m a f (n + 1) := by
  ext1 x
  have hsrc : copiedTo m a f n (a * 4096 + n) = m (a * 4096 + n) :=
    if_neg fun h => haf (by omega)
  rw [hsrc, writeByte, u32_eq (by omega), copiedTo, copiedTo]
  by_cases hx : x = f * 4096 + n
  · rw [if_pos hx, if_pos (by omega), hx, Nat.add_sub_cancel_left]
  · rw [if_neg hx]
    congr 1
    simp only [eq_iff_iff]
    omega

/-- What the processor finds for a byte of a page that is present, whatever `ram` holds. -/
lemma cpuWalk_page {m : Mem} {n : Nat} (hI : Inv s) (hF : Fresh s.log) (hd : s.IsDir d)
    (hcr3 : s.cr3 = (s.dirs d).phys) (hp : (s.entry d i p).present = true)
    (ha : (s.entry d i p).addr.val = a) (hn : n < 4096) :
    ({ s with ram := m } : State σ).cpuWalk s.cr3 (u32 (idx2pg i p + n)) = some (a * 4096 + n) := by
  have hd0 : d ≠ 0 := by
    obtain ⟨r, hr, -, rfl⟩ := hd
    exact (hF.valid r hr).1
  obtain ⟨s₁, hs₁⟩ : ∃ s₁, s₁ = { s with ram := m } := ⟨_, rfl⟩
  have hlog : s₁.log = s.log := by rw [hs₁]
  have hdirs : s₁.dirs = s.dirs := by rw [hs₁]
  have hI₁ : Inv s₁ := (Keeps.of_eq hlog hdirs (by rw [hs₁]) (by rw [hs₁])).inv (hlog ▸ hF) hI
  have hd₁ : s₁.IsDir d := hd.mono (hlog ▸ List.suffix_rfl)
  have hentry : s₁.entry d i p = s.entry d i p := by
    rw [State.entry, State.entry, hdirs, hs₁]
  have hm : s₁.Mapped d (u32 (idx2pg i p + n)) := by
    rw [State.mapped_iff, pdIdx_idx2pg hn, ptIdx_idx2pg hn, hentry, hp]
  rw [← hs₁, hcr3, ← hdirs, hI₁.cpuWalk (hlog ▸ hF) hd₁, if_pos hm, State.getPhysical_entry hd0 hm,
    pdIdx_idx2pg hn, ptIdx_idx2pg hn, idx2pg_mod hn, hentry, ha]

/-- Copying a page to another one through the mappings. -/
lemma memcpy_spec (hI : Inv s) (hF : Fresh s.log) (hd : s.IsDir d) (hcr3 : s.cr3 = (s.dirs d).phys)
    (hsp : (s.entry d i p).present = true) (hsa : (s.entry d i p).addr.val = a)
    (hdp : (s.entry d j q).present = true) (hda : (s.entry d j q).addr.val = f) (haf : a ≠ f)
    (hoa : Off s.log a) (hof : Off s.log f) {n : Nat} (hn : n ≤ 4096) :
    s.memcpy (idx2pg i p) (idx2pg j q) n = .ok { s with ram := copiedTo s.ram a f n } := by
  have ha : a < 1048576 := hsa ▸ (s.entry d i p).addr.isLt
  have hf : f < 1048576 := hda ▸ (s.entry d j q).addr.isLt
  induction n with
  | zero =>
    have : copiedTo s.ram a f 0 = s.ram := by
      ext1 x
      exact if_neg (by omega)
    rw [State.memcpy, this]
  | succ n ih =>
    obtain ⟨s₁, hs₁⟩ : ∃ s₁, s₁ = { s with ram := copiedTo s.ram a f n } := ⟨_, rfl⟩
    have hlog : s₁.log = s.log := by rw [hs₁]
    have hram : s₁.ram = copiedTo s.ram a f n := by rw [hs₁]
    have hcr3₁ : s₁.cr3 = s.cr3 := by rw [hs₁]
    have hsrc : s₁.cpuWalk s.cr3 (u32 (idx2pg i p + n)) = some (a * 4096 + n) :=
      hs₁ ▸ cpuWalk_page hI hF hd hcr3 hsp hsa (by omega)
    have hdst : s₁.cpuWalk s.cr3 (u32 (idx2pg j q + n)) = some (f * 4096 + n) :=
      hs₁ ▸ cpuWalk_page hI hF hd hcr3 hdp hda (by omega)
    have hclob : ¬ ∃ r ∈ s₁.log, r.Has (f * 4096 + n) := by
      rintro ⟨r, hr, hx⟩
      exact hof r (hlog ▸ hr) _ hx (by omega)
    have hbyte : s₁.physByte (a * 4096 + n) = copiedTo s.ram a f n (a * 4096 + n) := by
      have hdiv : (a * 4096 + n) / 4096 = a := by omega
      rw [State.physByte_off (by omega) (by rw [hdiv, hlog]; exact hoa), hram]
    rw [State.memcpy, ih (by omega), ← hs₁]
    simp only [bind, Except.bind, hcr3₁, hsrc, hdst, if_neg hclob, pure, Except.pure]
    rw [hbyte, hram, writeByte_copiedTo haf hf (by omega), hs₁]

/-- Copying from anywhere to a page that is present and in whose frame no table or directory lies. -/
lemma memcpy_halts (hI : Inv s) (hF : Fresh s.log) (hd : s.IsDir d) (hcr3 : s.cr3 = (s.dirs d).phys)
    (hdp : (s.entry d j q).present = true) (hda : (s.entry d j q).addr.val = f)
    (hof : Off s.log f) {src n : Nat} (hn : n ≤ 4096) :
    s.memcpy src (idx2pg j q) n = .error .pageFault ∨
      ∃ m, s.memcpy src (idx2pg j q) n = .ok { s with ram := m } := by
  induction n with
  | zero => exact .inr ⟨s.ram, rfl⟩
  | succ n ih =>
    rw [State.memcpy]
    rcases ih (by omega) with h | ⟨m, h⟩
    · rw [h]
      exact .inl rfl
    · obtain ⟨s₁, hs₁⟩ : ∃ s₁, s₁ = { s with ram := m } := ⟨_, rfl⟩
      have hdst : s₁.cpuWalk s₁.cr3 (u32 (idx2pg j q + n)) = some (f * 4096 + n) := by
        rw [hs₁]
        exact cpuWalk_page hI hF hd hcr3 hdp hda (by omega)
      have hclob : ¬ ∃ r ∈ s₁.log, r.Has (f * 4096 + n) := by
        rintro ⟨r, hr, hx⟩
        exact hof r (by rwa [hs₁] at hr) _ hx (by omega)
      rw [h, ok_bind, ← hs₁, hdst]
      cases hsrc : s₁.cpuWalk s₁.cr3 (u32 (src + n)) with
      | none => exact .inl rfl
      | some a =>
        refine .inr ⟨writeByte m (f * 4096 + n) (s₁.physByte a), ?_⟩
        simp only [if_neg hclob, bind, Except.bind, pure, Except.pure]
        rw [hs₁]

end

end ToeS.Vmm
