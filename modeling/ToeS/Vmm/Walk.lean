import ToeS.Vmm.Defs

/-!
# The two walks agree

A directory keeps two arrays: `tables` for the kernel and `phys_tabs` for the processor. `Agrees` says
what ties an entry of one to the entry of the other, `Inv` that all entries of all directories are
tied so, and `Keeps` that a piece of code leaves them tied; code that runs in sequence composes by
`Keeps.trans`. Where they are tied, the walk of the processor and `get_physical` meet the same page
entry.
-/

namespace ToeS.Vmm
open Lib Frames

/-! ## Words -/

/-- The flags of a directory entry go into the low bits. -/
lemma or_flags {p : Nat} (h : p % 4096 = 0) : p ||| pdeP ||| pdeW ||| pdeU = p + 7 := by
  rw [Nat.or_assoc, Nat.or_assoc, show p = 2 ^ 12 * (p / 4096) by omega]
  exact (Nat.two_pow_add_eq_or_of_lt (by decide) _).symm

/-- The lowest bit is the parity. -/
lemma and_one {x : Nat} : x &&& 1 = x % 2 := Nat.and_two_pow_sub_one_eq_mod x 1

/-- An entry is a word of 32 bits. -/
lemma Page.encode_lt (pg : Page) : pg.encode < 4294967296 := by
  have := pg.addr.isLt
  have := pg.present.toNat_lt
  have := pg.rw.toNat_lt
  have := pg.usr.toNat_lt
  unfold Page.encode
  omega

/-- Its lowest bit is the present flag. -/
lemma Page.encode_present {pg : Page} : pg.encode &&& 1 = 0 ↔ pg.present = false := by
  rw [and_one, Page.encode]
  cases pg.present <;> simp <;> omega

/-- Without its low bits it is the address of the frame. -/
lemma Page.encode_frame {pg : Page} : pg.encode &&& 0xfffff000 = pg.addr * 4096 := by
  have := pg.present.toNat_lt
  have := pg.rw.toNat_lt
  have := pg.usr.toNat_lt
  rw [and_frame pg.encode_lt, Page.encode]
  omega

/-! ## The memory of the tables -/

/-- What `kmalloc_ap` is relied on for: the memory it hands out is at non-zero page-aligned addresses
inside the address space, and no two pieces overlap. -/
structure Fresh (log : List Region) : Prop where
  valid : ∀ r ∈ log, r.addr ≠ 0 ∧ r.addr % 4096 = 0 ∧ r.phys % 4096 = 0 ∧
    r.addr + r.obj.size ≤ 4294967296 ∧ r.phys + r.obj.size ≤ 4294967296
  apart : log.Pairwise fun r r' =>
    (r.addr + r.obj.size ≤ r'.addr ∨ r'.addr + r'.obj.size ≤ r.addr) ∧
      (r.phys + r.obj.size ≤ r'.phys ∨ r'.phys + r'.obj.size ≤ r.phys)

/-- What was allocated earlier is fresh as well. -/
lemma Fresh.suffix {log log' : List Region} (h : Fresh log') (hl : log <:+ log') : Fresh log :=
  ⟨fun r hr => h.valid r (hl.mem hr), h.apart.sublist hl.sublist⟩

/-- No object is empty. -/
lemma Obj.size_pos (o : Obj) : 0 < o.size := by cases o <;> decide

/-- The piece of memory behind a physical address is the one that is found. -/
lemma Fresh.find {log : List Region} (h : Fresh log) {r : Region} {x : Nat} (hr : r ∈ log)
    (hx : r.Has x) : log.find? (fun r => r.Has x) = some r := by
  obtain ⟨-, hap⟩ := h
  induction log with
  | nil => cases hr
  | cons r' log ih =>
    rw [List.pairwise_cons] at hap
    rw [List.find?_cons]
    rcases List.mem_cons.mp hr with rfl | hr
    · rw [decide_eq_true hx]
    · have hne : ¬ r'.Has x := by
        have := (hap.1 r hr).2
        unfold Region.Has at hx ⊢
        omega
      rw [decide_eq_false hne]
      exact ih hr hap.2

variable {σ : Type}

/-- `d` is a directory that was allocated. -/
def State.IsDir (s : State σ) (d : Nat) : Prop := ∃ r ∈ s.log, r.obj = .pgDir ∧ r.addr = d

/-- `t` is a table that was allocated. -/
def State.IsTab (s : State σ) (t : Nat) : Prop := ∃ r ∈ s.log, r.obj = .pgTab ∧ r.addr = t

section
variable {s : State σ} {r : Region}

/-- The processor reads a word of a table or directory as the kernel does. -/
lemma State.physWord_eq (hf : Fresh s.log) (hr : r ∈ s.log) {i : Nat} (hi : 4 * i < r.obj.size) :
    s.physWord (r.phys + 4 * i) = s.word r i := by
  have hx : r.Has (r.phys + 4 * i) := ⟨by omega, by omega⟩
  rw [State.physWord, hf.find hr hx]
  show s.word r ((r.phys + 4 * i - r.phys) / 4) = _
  rw [Nat.add_sub_cancel_left, Nat.mul_div_cancel_left _ (by decide)]

/-- An index is its own remainder. -/
lemma Fin.ofNat_self (i : Fin 1024) : Fin.ofNat 1024 i.val = i := Fin.ext (Nat.mod_eq_of_lt i.isLt)

/-- The words of a table are its entries. -/
lemma State.word_pgTab (h : r.obj = .pgTab) (i : Fin 1024) :
    s.word r i = (s.tabs r.addr i).encode := by
  unfold State.word
  rw [h]
  simp only [Fin.ofNat_self]

/-- The words of a directory are the physical addresses of its tables. -/
lemma State.word_pgDir (h : r.obj = .pgDir) (i : Fin 1024) :
    s.word r i = (s.dirs r.addr).physTabs i := by
  unfold State.word
  rw [h]
  simp only [PgDir.word, i.isLt, if_true, Fin.ofNat_self]

end

/-! ## The invariant -/

/-- The entries of the two arrays at one index: both are empty, or one is a table and the other its
physical address with the flags. -/
def Agrees (log : List Region) (table physTab : Nat) : Prop :=
  table = 0 ∧ physTab = 0 ∨
    ∃ r ∈ log, r.obj = .pgTab ∧ r.addr = table ∧ physTab = r.phys ||| pdeP ||| pdeW ||| pdeU

/-- All directories know their physical address, and their arrays agree. -/
structure Inv (s : State σ) : Prop where
  phys : ∀ r ∈ s.log, r.obj = .pgDir → (s.dirs r.addr).phys = r.phys
  entry : ∀ d, s.IsDir d → ∀ i, Agrees s.log ((s.dirs d).tables i) ((s.dirs d).physTabs i)

/-- The code that leads from `s` to `s'` keeps the invariant, as long as the memory it is given is
fresh. -/
structure Keeps (s s' : State σ) : Prop where
  log : s.log <:+ s'.log
  kern : s'.kernDir = s.kernDir
  cur : s'.currentDir = s.currentDir
  inv : Fresh s'.log → Inv s → Inv s'

/-- Agreement of the two entries is kept when more is allocated. -/
lemma Agrees.mono {log log' : List Region} {t e : Nat} (h : Agrees log t e) (hl : log <:+ log') :
    Agrees log' t e := by
  rcases h with h | ⟨r, hr, h⟩
  · exact .inl h
  · exact .inr ⟨r, hl.mem hr, h⟩

section
variable {s s' s'' : State σ} {d : Nat}

/-- A directory stays one. -/
lemma State.IsDir.mono (h : s.IsDir d) (hl : s.log <:+ s'.log) : s'.IsDir d := by
  obtain ⟨r, hr, h⟩ := h
  exact ⟨r, hl.mem hr, h⟩

/-- Nothing was changed. -/
lemma Keeps.refl : Keeps s s := ⟨List.suffix_rfl, rfl, rfl, fun _ h => h⟩

/-- What two steps keep is kept by both together. -/
lemma Keeps.trans (h : Keeps s s') (h' : Keeps s' s'') : Keeps s s'' where
  log := h.log.trans h'.log
  kern := h'.kern.trans h.kern
  cur := h'.cur.trans h.cur
  inv := fun hf hi => h'.inv hf (h.inv (hf.suffix h'.log) hi)

/-- Code that does not touch the directories. -/
lemma Keeps.of_eq (hl : s'.log = s.log) (hd : s'.dirs = s.dirs) (hk : s'.kernDir = s.kernDir)
    (hc : s'.currentDir = s.currentDir) : Keeps s s' where
  log := hl ▸ List.suffix_rfl
  kern := hk
  cur := hc
  inv := by
    intro _ hi
    constructor
    · rw [hl, hd]
      exact hi.phys
    · unfold State.IsDir
      rw [hl, hd]
      exact hi.entry

/-- `map_page` keeps the tables of the directories. -/
lemma keeps_mapPage {pg : PagePtr} {usr write addr : Nat} :
    Keeps s (s.mapPage pg usr write addr) := .of_eq rfl rfl rfl rfl

/-- `unmap_page` keeps the tables of the directories. -/
lemma keeps_unmapPage {pg : PagePtr} : Keeps s (s.unmapPage pg) := .of_eq rfl rfl rfl rfl

/-- `switch_page_directory` keeps the tables of the directories. -/
lemma keeps_switch : Keeps s (s.switchPageDirectory s.currentDir) := .of_eq rfl rfl rfl rfl

/-- A copy through the mappings changes only `ram`. -/
lemma keeps_memcpy {src dst n : Nat} (h : s.memcpy src dst n = .ok s') : Keeps s s' := by
  induction n generalizing s' with
  | zero =>
    cases h
    exact .refl
  | succ n ih =>
    obtain ⟨s₁, h₁, h⟩ := bind_ok.mp h
    refine (ih h₁).trans ?_
    split at h
    · split at h
      · cases h
      · cases h
        exact .of_eq rfl rfl rfl rfl
    · cases h

/-- Storing an entry whose two fields agree. -/
lemma keeps_setEntry {i : Fin 1024} {t e : Nat} (h : Agrees s.log t e) :
    Keeps s (s.setEntry d i t e) where
  log := List.suffix_rfl
  kern := rfl
  cur := rfl
  inv := by
    intro _ hi
    have hdirs : (s.setEntry d i t e).dirs = Function.update s.dirs d
      { s.dirs d with tables := Function.update (s.dirs d).tables i t,
                      physTabs := Function.update (s.dirs d).physTabs i e } := rfl
    constructor
    · intro r hr ho
      rw [hdirs, Function.update_apply]
      split
      · rename_i hrd
        exact hrd ▸ hi.phys r hr ho
      · exact hi.phys r hr ho
    · intro d' hd' j
      show Agrees s.log _ _
      rw [hdirs, Function.update_apply]
      split
      · rename_i hdd
        simp only [Function.update_apply]
        split
        · exact h
        · exact hdd ▸ hi.entry d' hd' j
      · exact hi.entry d' hd' j

variable {kmallocAp : σ → Nat → Nat × Nat × σ}

/-- A new table is not a directory. -/
lemma keeps_alloc_pgTab : Keeps s (s.alloc kmallocAp .pgTab).2 where
  log := List.suffix_cons _ _
  kern := rfl
  cur := rfl
  inv := by
    intro _ hi
    have hold : ∀ {r}, r ∈ (s.alloc kmallocAp .pgTab).2.log → r.obj = .pgDir → r ∈ s.log := by
      intro r hr ho
      rcases List.mem_cons.mp hr with rfl | hr
      · cases ho
      · exact hr
    constructor
    · exact fun r hr ho => hi.phys r (hold hr ho) ho
    · rintro d ⟨r, hr, ho, rfl⟩ i
      exact (hi.entry _ ⟨r, hold hr ho, ho, rfl⟩ i).mono (List.suffix_cons _ _)

/-- `get_page` stores both fields of the entry of a new table. -/
lemma keeps_getPage {addr create : Nat} : Keeps s (s.getPage kmallocAp addr create d).2 := by
  unfold State.getPage
  split
  · exact .refl
  · split
    · have halloc : Keeps s (s.alloc kmallocAp .pgTab).2 := keeps_alloc_pgTab
      have htab : Keeps s ((s.alloc kmallocAp .pgTab).2.setTab (s.alloc kmallocAp .pgTab).1.addr
        fun _ => Page.zero) := halloc.trans (.of_eq rfl rfl rfl rfl)
      exact htab.trans (keeps_setEntry (.inr ⟨_, List.mem_cons_self .., rfl, rfl, rfl⟩))
    · exact .refl

/-- A new directory is empty and is at an address of its own. -/
lemma keeps_newPgDir : Keeps s (s.newPgDir kmallocAp).2 where
  log := List.suffix_cons _ _
  kern := rfl
  cur := rfl
  inv := by
    intro hf hi
    obtain ⟨r, hlog, hr, hdirs⟩ : ∃ r : Region, (s.newPgDir kmallocAp).2.log = r :: s.log ∧
      r.obj = .pgDir ∧ (s.newPgDir kmallocAp).2.dirs =
        Function.update s.dirs r.addr { PgDir.zero with phys := r.phys } := ⟨_, rfl, rfl, rfl⟩
    rw [hlog] at hf
    have hne : ∀ r' ∈ s.log, r'.addr ≠ r.addr := by
      intro r' hr' e
      have := ((List.pairwise_cons.mp hf.apart).1 r' hr').1
      have := r.obj.size_pos
      have := r'.obj.size_pos
      omega
    constructor
    · intro r' hr' ho
      rw [hlog] at hr'
      rw [hdirs, Function.update_apply]
      rcases List.mem_cons.mp hr' with rfl | hr'
      · rw [if_pos rfl]
      · rw [if_neg (hne r' hr')]
        exact hi.phys r' hr' ho
    · rintro d ⟨r', hr', ho, rfl⟩ i
      rw [hlog] at hr' ⊢
      rw [hdirs, Function.update_apply]
      rcases List.mem_cons.mp hr' with rfl | hr'
      · rw [if_pos rfl]
        exact .inl ⟨rfl, rfl⟩
      · rw [if_neg (hne r' hr')]
        exact (hi.entry _ ⟨r', hr', ho, rfl⟩ i).mono (List.suffix_cons _ _)

/-- A page is mapped by `get_page` and `map_page`. -/
lemma keeps_mapAt {addr dir frame : Nat} {page : PagePtr}
    (h : s.mapAt kmallocAp addr dir frame = .ok (page, s')) : Keeps s s' := by
  have hg : Keeps s (s.getPage kmallocAp addr 1 dir).2 := keeps_getPage
  unfold State.mapAt at h
  split at h
  · rename_i hp
    rw [hp] at hg
    cases h
    exact hg.trans keeps_mapPage
  · cases h

/-- Copying a page keeps the tables that there are. -/
lemma keeps_copyPage {new : Nat} {i p : Fin 1024}
    (h : s.copyPage kmallocAp new i p = .ok s') : Keeps s s' := by
  obtain ⟨⟨page, s₁⟩, h₁, h⟩ := bind_ok.mp h
  obtain ⟨s₂, h₂, h⟩ := bind_ok.mp h
  obtain ⟨⟨page', s₃⟩, h₃, h⟩ := bind_ok.mp h
  cases h
  have hframe : Keeps s { s with frames := (getFrame s.frames).2 } := .of_eq rfl rfl rfl rfl
  have hcopied : Keeps s s₂ :=
    ((hframe.trans (keeps_mapAt h₁)).trans keeps_switch).trans (keeps_memcpy h₂)
  exact ((hcopied.trans keeps_unmapPage).trans (keeps_mapAt h₃)).trans keeps_switch

/-- A loop keeps what its body keeps. -/
lemma keeps_exec {ι : Type} {body : State σ → ι → Except Fault (State σ)} {l : List ι}
    (hbody : ∀ s₁ i s₂, Keeps s s₁ → body s₁ i = .ok s₂ → Keeps s₁ s₂)
    (h : exec body s l = .ok s') : Keeps s s' :=
  exec_ok_all (I := Keeps s) (fun s₁ i s₂ hk hs => hk.trans (hbody s₁ i s₂ hk hs)) .refl h

/-- Copying a table keeps the tables that there are. -/
lemma keeps_copyTab {dir new : Nat} {i : Fin 1024}
    (h : s.copyTab kmallocAp dir new i = .ok s') : Keeps s s' := by
  simp only [State.copyTab] at h
  split at h
  · refine keeps_exec (fun s₁ p s₂ _ hs => ?_) h
    split at hs
    · exact keeps_copyPage hs
    · cases hs
      exact .refl
  · cases h
    exact .refl

/-- What the kernel's directory has at an index agrees, and so does the copy of it. -/
lemma keeps_shareTab {new : Nat} {i : Fin 1024} (hk : s.IsDir s.kernDir)
    (h : s.shareTab new i = .ok s') : Keeps s s' := by
  simp only [State.shareTab] at h
  split at h
  · cases h
    refine ⟨List.suffix_rfl, rfl, rfl, fun hf hi => ?_⟩
    exact (keeps_setEntry (hi.entry _ hk i)).inv hf hi
  · cases h
    exact .refl

/-- Copying a directory keeps the tables that there are. -/
lemma keeps_copyPgDir {dir new : Nat} (hk : s.IsDir s.kernDir)
    (h : s.copyPgDir kmallocAp dir = .ok (new, s')) : Keeps s s' := by
  obtain ⟨s₁, h₁, h⟩ := bind_ok.mp h
  obtain ⟨s₂, h₂, h⟩ := bind_ok.mp h
  cases h
  have hnew : Keeps s (s.newPgDir kmallocAp).2 := keeps_newPgDir
  have hlow : Keeps s s₁ := hnew.trans (keeps_exec (fun _ _ _ _ hs => keeps_copyTab hs) h₁)
  refine hlow.trans (keeps_exec (fun t i t' ht hs => keeps_shareTab ?_ hs) h₂)
  rw [(hlow.trans ht).kern]
  exact hk.mono (hlow.trans ht).log

end

/-! ## Requests to the allocator -/

/-- Every request to `kmalloc_ap` keeps `Q`, which is about the heap and what was handed out. -/
def AllocInv (kmallocAp : σ → Nat → Nat × Nat × σ) (Q : σ → List Region → Prop) : Prop :=
  ∀ heap log (o : Obj), Q heap log →
    Q (kmallocAp heap o.size).2.2
      (⟨o, (kmallocAp heap o.size).1, (kmallocAp heap o.size).2.1⟩ :: log)

section
variable {kmallocAp : σ → Nat → Nat × Nat × σ} {Q : σ → List Region → Prop} {s s' : State σ}
  {d new va : Nat} {i p : Fin 1024}

/-- `get_page` makes one request at most. -/
lemma AllocInv.getPage {create : Nat} (hQ : AllocInv kmallocAp Q) (hs : Q s.heap s.log) :
    Q (s.getPage kmallocAp va create d).2.heap (s.getPage kmallocAp va create d).2.log := by
  unfold State.getPage
  split
  · exact hs
  · split
    · exact hQ s.heap s.log .pgTab hs
    · exact hs

/-- A page is mapped with the request of `get_page`. -/
lemma AllocInv.mapAt {frame : Nat} {page : PagePtr} (hQ : AllocInv kmallocAp Q)
    (hs : Q s.heap s.log) (h : s.mapAt kmallocAp va d frame = .ok (page, s')) :
    Q s'.heap s'.log := by
  have hget : Q (s.getPage kmallocAp va 1 d).2.heap (s.getPage kmallocAp va 1 d).2.log :=
    hQ.getPage hs
  unfold State.mapAt at h
  split at h
  · rename_i hp
    rw [hp] at hget
    cases h
    exact hget
  · cases h

/-- Copying bytes makes no request. -/
lemma memcpy_heap {src dst n : Nat} (h : s.memcpy src dst n = .ok s') :
    s'.heap = s.heap ∧ s'.log = s.log := by
  induction n generalizing s' with
  | zero =>
    cases h
    exact ⟨rfl, rfl⟩
  | succ n ih =>
    obtain ⟨s₁, h₁, h⟩ := bind_ok.mp h
    split at h
    · split at h
      · cases h
      · cases h
        have hrest : s₁.heap = s.heap ∧ s₁.log = s.log := ih h₁
        exact hrest
    · cases h

/-- The requests for a page that is copied. -/
lemma AllocInv.copyPage (hQ : AllocInv kmallocAp Q) (hs : Q s.heap s.log)
    (h : s.copyPage kmallocAp new i p = .ok s') : Q s'.heap s'.log := by
  obtain ⟨⟨page, s₁⟩, h₁, h⟩ := bind_ok.mp h
  obtain ⟨s₂, h₂, h⟩ := bind_ok.mp h
  obtain ⟨⟨page', s₃⟩, h₃, h⟩ := bind_ok.mp h
  cases h
  obtain ⟨hheap, hlog⟩ := memcpy_heap h₂
  have hmapped : Q s₁.heap s₁.log := hQ.mapAt (s := { s with frames := (getFrame s.frames).2 }) hs h₁
  have hcopied : Q s₂.heap s₂.log := by
    rw [hheap, hlog]
    exact hmapped
  have hfreed : Q s₃.heap s₃.log := hQ.mapAt (s := s₂.unmapPage page) hcopied h₃
  exact hfreed

/-- The requests for a table. -/
lemma AllocInv.copyTab (hQ : AllocInv kmallocAp Q) (hs : Q s.heap s.log)
    (h : s.copyTab kmallocAp d new i = .ok s') : Q s'.heap s'.log := by
  simp only [State.copyTab] at h
  split at h
  · refine exec_ok_all (I := fun s => Q s.heap s.log) (fun s₁ p s₂ hs h => ?_) hs h
    split at h
    · exact hQ.copyPage hs h
    · cases h
      exact hs
  · cases h
    exact hs

/-- A table that is shared makes no request. -/
lemma shareTab_heap (h : s.shareTab new i = .ok s') : s'.heap = s.heap ∧ s'.log = s.log := by
  simp only [State.shareTab] at h
  split at h <;> cases h <;> exact ⟨rfl, rfl⟩

/-- `copy_pg_dir` keeps what every request keeps. -/
lemma AllocInv.copyPgDir (hQ : AllocInv kmallocAp Q) (hs : Q s.heap s.log)
    (h : s.copyPgDir kmallocAp d = .ok (new, s')) : Q s'.heap s'.log := by
  obtain ⟨s₁, h₁, h⟩ := bind_ok.mp h
  obtain ⟨s₂, h₂, h⟩ := bind_ok.mp h
  cases h
  have hnew : Q (s.newPgDir kmallocAp).2.heap (s.newPgDir kmallocAp).2.log :=
    hQ s.heap s.log .pgDir hs
  have hlow : Q s₁.heap s₁.log :=
    exec_ok_all (I := fun s => Q s.heap s.log) (fun _ _ _ => hQ.copyTab) hnew h₁
  refine exec_ok_all (I := fun s => Q s.heap s.log) (fun s₁ i s₂ hs h => ?_) hlow h₂
  obtain ⟨hheap, hlog⟩ := shareTab_heap h
  rwa [hheap, hlog]

end

/-! ## The walks -/

/-- The entry that a directory has for a virtual address is present. -/
def State.Mapped (s : State σ) (d va : Nat) : Prop :=
  (s.dirs d).tables (pdIdx va) ≠ 0 ∧
    (s.tabs ((s.dirs d).tables (pdIdx va)) (ptIdx va)).present = true

instance (s : State σ) (d va : Nat) : Decidable (s.Mapped d va) :=
  inferInstanceAs (Decidable (_ ∧ _))

/-- The two arrays of a directory agree: an entry of `tables` is set when its twin is present for the
processor, and the twin is the physical address of that table. So the processor translates the
addresses whose entry is present, and as `get_physical` does. -/
structure WalksAgree (s : State σ) (d : Nat) : Prop where
  present : ∀ i, (s.dirs d).tables i ≠ 0 ↔ (s.dirs d).physTabs i &&& pdeP ≠ 0
  table : ∀ i, (s.dirs d).tables i ≠ 0 → ∃ r ∈ s.log, r.obj = .pgTab ∧
    r.addr = (s.dirs d).tables i ∧ (s.dirs d).physTabs i &&& 0xfffff000 = r.phys
  walk : ∀ va, s.cpuWalk (s.dirs d).phys va =
    if s.Mapped d va then some (s.getPhysical va d) else none

section
variable {s : State σ} {log : List Region} {t e : Nat}

/-- The flag says whether there is a table. -/
lemma Agrees.present (h : Agrees log t e) (hf : Fresh log) : t ≠ 0 ↔ e &&& pdeP ≠ 0 := by
  rcases h with ⟨rfl, rfl⟩ | ⟨r, hr, -, rfl, rfl⟩
  · exact ⟨fun h => (h rfl).elim, fun h => (h rfl).elim⟩
  · have hp := (hf.valid r hr).2.2.1
    refine ⟨fun _ => ?_, fun _ => (hf.valid r hr).1⟩
    rw [or_flags hp, pdeP, and_one]
    omega

/-- The other bits are the physical address of the table. -/
lemma Agrees.table (h : Agrees log t e) (hf : Fresh log) (ht : t ≠ 0) :
    ∃ r ∈ log, r.obj = .pgTab ∧ r.addr = t ∧ e &&& 0xfffff000 = r.phys := by
  rcases h with ⟨rfl, -⟩ | ⟨r, hr, ho, rfl, rfl⟩
  · exact (ht rfl).elim
  · obtain ⟨-, -, hp, -, hlt⟩ := hf.valid r hr
    rw [ho] at hlt
    refine ⟨r, hr, ho, rfl, ?_⟩
    rw [or_flags hp, and_frame (by simp [Obj.size] at hlt; omega)]
    omega

/-- What `get_physical` returns for a page that has a table. -/
lemma State.getPhysical_eq {d va : Nat} (hd : d ≠ 0)
    (ht : (s.dirs d).tables (pdIdx va) ≠ 0) :
    s.getPhysical va d =
      (s.tabs ((s.dirs d).tables (pdIdx va)) (ptIdx va)).addr * 4096 + va % 4096 := by
  simp only [State.getPhysical, if_neg hd, if_pos ht]
  rfl

/-- Where the arrays agree, the processor meets the entries that the kernel meets. -/
lemma Inv.cpuWalk (hi : Inv s) (hf : Fresh s.log) {d : Nat} (hd : s.IsDir d) (va : Nat) :
    s.cpuWalk (s.dirs d).phys va = if s.Mapped d va then some (s.getPhysical va d) else none := by
  have hent := hi.entry d hd (pdIdx va)
  obtain ⟨r, hr, ho, rfl⟩ := hd
  have hsz : r.obj.size = 8196 := by rw [ho]; rfl
  have hpde : s.physWord ((s.dirs r.addr).phys + 4 * pdIdx va) =
      (s.dirs r.addr).physTabs (pdIdx va) := by
    rw [hi.phys r hr ho, State.physWord_eq hf hr (by omega), State.word_pgDir ho]
  unfold State.cpuWalk
  simp only [hpde]
  by_cases ht : (s.dirs r.addr).tables (pdIdx va) = 0
  · have hp := (not_congr (hent.present hf)).mp (not_not.mpr ht)
    rw [if_pos (not_not.mp hp), if_neg (fun h => h.1 ht)]
  · obtain ⟨q, hq, hqo, hqa, hqp⟩ := hent.table hf ht
    have hqsz : q.obj.size = 4096 := by rw [hqo]; rfl
    have hpte : s.physWord (q.phys + 4 * ptIdx va) =
        (s.tabs ((s.dirs r.addr).tables (pdIdx va)) (ptIdx va)).encode := by
      rw [State.physWord_eq hf hq (by omega), State.word_pgTab hqo, hqa]
    rw [if_neg ((hent.present hf).mp ht), hqp, hpte, Page.encode_frame,
      State.getPhysical_eq (hf.valid r hr).1 ht]
    by_cases hp : (s.tabs ((s.dirs r.addr).tables (pdIdx va)) (ptIdx va)).present = true
    · rw [if_neg (by rw [Page.encode_present, hp]; decide), if_pos ⟨ht, hp⟩]
    · rw [if_pos (Page.encode_present.mpr (by simpa using hp)), if_neg (fun h => hp h.2)]

/-- The two walks agree in every directory where entries and physical entries do. -/
lemma Inv.walksAgree (hi : Inv s) (hf : Fresh s.log) {d : Nat} (hd : s.IsDir d) :
    WalksAgree s d where
  present := fun i => (hi.entry d hd i).present hf
  table := fun i => (hi.entry d hd i).table hf
  walk := hi.cpuWalk hf hd

end

/-! ## Runs -/

/-- The calls that change page entries and directories, and `switch_page_directory`. -/
inductive Op where
  | getPage (addr create dir : Nat)
  | mapPage (pg : PagePtr) (usr write addr : Nat)
  | unmapPage (pg : PagePtr)
  | switchPageDirectory (dir : Nat)
  | copyPgDir (dir : Nat)

/-- Directories are directories, and entries belong to tables. -/
def Op.Legal (s : State σ) : Op → Prop
  | .getPage _ _ dir => s.IsDir dir
  | .mapPage pg _ _ _ => s.IsTab pg.1
  | .unmapPage pg => s.IsTab pg.1
  | .switchPageDirectory dir => s.IsDir dir
  | .copyPgDir dir => s.IsDir dir ∧ s.IsDir s.currentDir

variable (kmallocAp : σ → Nat → Nat × Nat × σ)

/-- One call. -/
def State.step (s : State σ) : Op → Except Fault (State σ)
  | .getPage addr create dir => .ok (s.getPage kmallocAp addr create dir).2
  | .mapPage pg usr write addr => .ok (s.mapPage pg usr write addr)
  | .unmapPage pg => .ok (s.unmapPage pg)
  | .switchPageDirectory dir => .ok (s.switchPageDirectory dir)
  | .copyPgDir dir => do
    let (_, s) ← s.copyPgDir kmallocAp dir
    return s

/-- The first lines of `vmm_init`: no memory has been handed out yet, and `kern_dir` is made. -/
def State.boot (s : State σ) : State σ :=
  let (kernDir, s) := { s with log := [] }.newPgDir kmallocAp
  { s with kernDir := kernDir }

section
variable {kmallocAp} {s s' : State σ}

/-- `kern_dir` is a directory, and agrees if its memory is fresh. -/
lemma State.boot_inv :
    (s.boot kmallocAp).IsDir (s.boot kmallocAp).kernDir ∧ Inv (s.boot kmallocAp) := by
  obtain ⟨r, hlog, ho, hk, hdirs⟩ : ∃ r : Region, (s.boot kmallocAp).log = [r] ∧ r.obj = .pgDir ∧
    (s.boot kmallocAp).kernDir = r.addr ∧ (s.boot kmallocAp).dirs r.addr =
      { PgDir.zero with phys := r.phys } := ⟨_, rfl, rfl, rfl, Function.update_self ..⟩
  have hmem : ∀ {r'}, r' ∈ (s.boot kmallocAp).log → r' = r := by
    intro r' hr'
    rwa [hlog, List.mem_singleton] at hr'
  refine ⟨⟨r, hlog ▸ List.mem_singleton_self r, ho, hk.symm⟩, ?_, ?_⟩
  · rintro r' hr' -
    rw [hmem hr', hdirs]
  · rintro d ⟨r', hr', -, rfl⟩ i
    rw [hmem hr', hdirs]
    exact .inl ⟨rfl, rfl⟩

/-- Every call keeps the invariant. -/
lemma State.step_keeps {op : Op} (hk : s.IsDir s.kernDir) (h : s.step kmallocAp op = .ok s') :
    s.log <:+ s'.log ∧ s'.kernDir = s.kernDir ∧ (Fresh s'.log → Inv s → Inv s') := by
  have of_keeps : ∀ {s'}, Keeps s s' →
      s.log <:+ s'.log ∧ s'.kernDir = s.kernDir ∧ (Fresh s'.log → Inv s → Inv s') :=
    fun h => ⟨h.log, h.kern, h.inv⟩
  cases op with
  | getPage addr create dir =>
    cases h
    exact of_keeps keeps_getPage
  | mapPage pg usr write addr =>
    cases h
    exact of_keeps keeps_mapPage
  | unmapPage pg =>
    cases h
    exact of_keeps keeps_unmapPage
  | switchPageDirectory dir =>
    cases h
    exact ⟨List.suffix_rfl, rfl, fun _ hi => ⟨hi.phys, hi.entry⟩⟩
  | copyPgDir dir =>
    obtain ⟨⟨new, s₁⟩, h₁, h⟩ := bind_ok.mp h
    cases h
    exact of_keeps (keeps_copyPgDir hk h₁)

/-- After any run of `get_page`, `map_page`, `unmap_page`, `switch_page_directory` and `copy_pg_dir`
from the `kern_dir` of `vmm_init`, where the memory that `kmalloc_ap` handed out is fresh, the two
walks agree in every directory that was made. -/
theorem walks_agree {l : List Op}
    (hl : LegalRun (State.step kmallocAp) Op.Legal (s.boot kmallocAp) l)
    (h : exec (State.step kmallocAp) (s.boot kmallocAp) l = .ok s') (hf : Fresh s'.log) {d : Nat}
    (hd : s'.IsDir d) : WalksAgree s' d := by
  have hinv : s'.IsDir s'.kernDir ∧ (Fresh s'.log → Inv s') := by
    refine exec_ok_inv (I := fun s => s.IsDir s.kernDir ∧ (Fresh s.log → Inv s)) ?_
      (s := s.boot kmallocAp) ⟨State.boot_inv.1, fun _ => State.boot_inv.2⟩ hl h
    rintro s op s' ⟨hk, hi⟩ - hs
    obtain ⟨hlog, hkern, hinv⟩ := State.step_keeps hk hs
    exact ⟨hkern ▸ hk.mono hlog, fun hf => hinv hf (hi (hf.suffix hlog))⟩
  exact (hinv.2 hf).walksAgree hf hd

end

/-- An allocator that hands out whole pages one after the other, a machine with 31 free frames, and a
run that maps one page. -/
def placement (next size : Nat) : Nat × Nat × Nat :=
  (0xD0000000 + next, 0x400000 + next, next + (size / 4096 + 1) * 4096)

@[inherit_doc placement]
def machine : State Nat :=
  ⟨4096, [], ⟨1, #v[1#32]⟩, fun _ => PgDir.zero, fun _ _ => Page.zero, fun _ => 0, 0, 0, 0⟩

@[inherit_doc placement]
def onePage : List Op :=
  [.getPage 0xC0005000 1 0xD0001000, .mapPage (0xD0004000, 5) 1 1 0, .switchPageDirectory 0xD0001000]

/-- `kern_dir` after one page was mapped in it. -/
theorem walks_agree_one_page :
    ∃ s', exec (State.step placement) (machine.boot placement) onePage = .ok s' ∧
      WalksAgree s' 0xD0001000 := by
  have hl : LegalRun (State.step placement) Op.Legal (machine.boot placement) onePage := by
    refine ⟨⟨⟨.pgDir, 0xD0001000, 0x401000⟩, .head _, rfl, rfl⟩, fun s₁ h₁ => ?_⟩
    cases h₁
    refine ⟨⟨⟨.pgTab, 0xD0004000, 0x404000⟩, .head _, rfl, rfl⟩, fun s₂ h₂ => ?_⟩
    cases h₂
    exact ⟨⟨⟨.pgDir, 0xD0001000, 0x401000⟩, .tail _ (.head _), rfl, rfl⟩, fun _ _ => trivial⟩
  exact ⟨_, rfl, walks_agree hl rfl ⟨by decide, by decide⟩
    ⟨⟨.pgDir, 0xD0001000, 0x401000⟩, by decide, rfl, rfl⟩⟩

end ToeS.Vmm
