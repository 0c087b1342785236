import ToeS.Vmm.Slots

/-!
# What `get_physical` says of unmapped addresses

`get_physical` looks for a table, but not at the `present` bit of the entry. An entry that is not
present has no frame (`Blank`), so it reports the offset in the page where it should report 0. The
result is over all runs of the functions of `vmm.c` from `kern_dir` on.
-/

namespace ToeS.Vmm
open Lib Frames

variable {σ : Type}

/-- The entries of tables that are not present have no frame. -/
def State.Blank (s : State σ) : Prop :=
  ∀ t, s.IsTab t → ∀ p, (s.tabs t p).present = false → (s.tabs t p).addr = 0

/-! ## The steps -/

section
variable {kmallocAp : σ → Nat → Nat × Nat × σ} {s s' : State σ} {pg : PagePtr}

/-- `map_page` leaves an entry present or without a frame. -/
lemma mapPage_blank {bs : BitSet} {pg : Page} {usr write addr : Nat}
    (h : (mapPage bs pg usr write addr).2.present = false) :
    (mapPage bs pg usr write addr).2.addr = 0 := by
  by_cases ha : pg.addr = 0
  · by_cases h0 : addr = 0
    · subst h0
      rw [mapPage, if_pos ha, if_neg (not_not.mpr rfl)] at h
      simp only at h
      split at h <;> cases h
    · rw [mapPage, if_pos ha, if_pos h0] at h ⊢
      simp only at h ⊢
      split at h
      · cases h
      · rename_i hset
        rw [if_neg hset]
        exact ha
  · rw [mapPage_held ha] at h
    cases h

/-- A page that is unmapped has no frame. -/
lemma unmapPage_blank {bs : BitSet} {pg : Page} : (unmapPage bs pg).2.addr = 0 := by
  by_cases ha : pg.addr = 0
  · rw [unmapPage_free ha]
    rfl
  · rw [unmapPage_held ha]
    rfl

/-- Storing such an entry. -/
lemma State.Blank.setPage {fr : BitSet} {v : Page} (h : s.Blank)
    (hv : v.present = false → v.addr = 0) : ({ s with frames := fr }.setPage pg v).Blank := by
  intro t ht p
  simp only [State.setPage, Function.update_apply]
  split
  · simp only [Function.update_apply]
    split
    · exact hv
    · rename_i hpt _
      exact hpt ▸ h t ht p
  · exact h t ht p

/-- `map_page` leaves no frame in an entry that is not present. -/
lemma State.Blank.mapPage {usr write addr : Nat} (h : s.Blank) :
    (s.mapPage pg usr write addr).Blank := h.setPage mapPage_blank

/-- `unmap_page` leaves no frame in an entry that is not present. -/
lemma State.Blank.unmapPage (h : s.Blank) : (s.unmapPage pg).Blank :=
  h.setPage fun _ => unmapPage_blank

/-- Code that changes neither the tables nor which memory is a table. -/
lemma State.Blank.congr (h : s.Blank) (hl : ∀ t, s'.IsTab t → s.IsTab t) (ht : s'.tabs = s.tabs) :
    s'.Blank := by
  intro t htab p
  rw [ht]
  exact h t (hl t htab) p

/-- A new table has no frame in it. -/
lemma State.Blank.getPage {va create d : Nat} (h : s.Blank) :
    (s.getPage kmallocAp va create d).2.Blank := by
  unfold State.getPage
  split
  · exact h
  · split
    · obtain ⟨r, s₁, hs₁⟩ : ∃ r s₁, s.alloc kmallocAp .pgTab = (r, s₁) := ⟨_, _, rfl⟩
      have hlog : s₁.log = r :: s.log := by cases hs₁; rfl
      have htabs : s₁.tabs = s.tabs := by cases hs₁; rfl
      rw [hs₁]
      rintro t ⟨r', hr', ho, rfl⟩ p
      have hr' : r' ∈ s₁.log := hr'
      simp only [State.setEntry, State.setDir, State.setTab, Function.update_apply, htabs]
      split
      · exact fun _ => rfl
      · rename_i hne
        rcases List.mem_cons.mp (hlog ▸ hr') with rfl | hr'
        · exact absurd rfl hne
        · exact h _ ⟨r', hr', ho, rfl⟩ p
    · exact h

/-- A new directory has no table in it. -/
lemma State.Blank.newPgDir (h : s.Blank) : (s.newPgDir kmallocAp).2.Blank := by
  refine h.congr ?_ rfl
  rintro t ⟨r, hr, ho, rfl⟩
  rcases List.mem_cons.mp hr with rfl | hr
  · cases ho
  · exact ⟨r, hr, ho, rfl⟩

/-- `get_page` and `map_page` leave no frame in an entry that is not present. -/
lemma State.Blank.mapAt {va d frame : Nat} {page : PagePtr} (h : s.Blank)
    (hs : s.mapAt kmallocAp va d frame = .ok (page, s')) : s'.Blank := by
  have hg : (s.getPage kmallocAp va 1 d).2.Blank := h.getPage
  unfold State.mapAt at hs
  split at hs
  · rename_i hp
    rw [hp] at hg
    cases hs
    exact hg.mapPage
  · cases hs

/-- `memcpy` does not touch the entries. -/
lemma State.Blank.memcpy {src dst n : Nat} (h : s.Blank) (hs : s.memcpy src dst n = .ok s') :
    s'.Blank := by
  induction n generalizing s' with
  | zero =>
    cases hs
    exact h
  | succ n ih =>
    obtain ⟨s₁, h₁, hs⟩ := bind_ok.mp hs
    split at hs
    · split at hs
      · cases hs
      · cases hs
        exact (ih h₁).congr (fun _ h => h) rfl
    · cases hs

/-- The copy of a page leaves no frame in an entry that is not present. -/
lemma State.Blank.copyPage {new : Nat} {i p : Fin 1024} (h : s.Blank)
    (hs : s.copyPage kmallocAp new i p = .ok s') : s'.Blank := by
  obtain ⟨⟨page, s₁⟩, h₁, hs⟩ := bind_ok.mp hs
  obtain ⟨s₂, h₂, hs⟩ := bind_ok.mp hs
  obtain ⟨⟨page', s₃⟩, h₃, hs⟩ := bind_ok.mp hs
  cases hs
  have hframe : ({ s with frames := (getFrame s.frames).2 } : State σ).Blank :=
    h.congr (fun _ h => h) rfl
  have hmapped : s₁.Blank := hframe.mapAt h₁
  have hswitched : (s₁.switchPageDirectory s₁.currentDir).Blank := hmapped.congr (fun _ h => h) rfl
  have hcopied : s₂.Blank := hswitched.memcpy h₂
  exact (hcopied.unmapPage.mapAt h₃).congr (fun _ h => h) rfl

/-- The same for the loop over a table. -/
lemma State.Blank.copyTab {dir new : Nat} {i : Fin 1024} (h : s.Blank)
    (hs : s.copyTab kmallocAp dir new i = .ok s') : s'.Blank := by
  simp only [State.copyTab] at hs
  split at hs
  · refine exec_ok_all (I := State.Blank) (fun s₁ p s₂ hb hs => ?_) h hs
    split at hs
    · exact hb.copyPage hs
    · cases hs
      exact hb
  · cases hs
    exact h

/-- A table that is shared stays as it is. -/
lemma State.Blank.shareTab {new : Nat} {i : Fin 1024} (h : s.Blank)
    (hs : s.shareTab new i = .ok s') : s'.Blank := by
  simp only [State.shareTab] at hs
  split at hs
  · cases hs
    exact h.congr (fun _ h => h) rfl
  · cases hs
    exact h

/-- `copy_pg_dir` leaves no frame in an entry that is not present. -/
lemma State.Blank.copyPgDir {dir new : Nat} (h : s.Blank)
    (hs : s.copyPgDir kmallocAp dir = .ok (new, s')) : s'.Blank := by
  obtain ⟨s₁, h₁, hs⟩ := bind_ok.mp hs
  obtain ⟨s₂, h₂, hs⟩ := bind_ok.mp hs
  cases hs
  have hlow : s₁.Blank :=
    exec_ok_all (I := State.Blank) (fun _ _ _ hb hs => hb.copyTab hs) h.newPgDir h₁
  exact exec_ok_all (I := State.Blank) (fun _ _ _ hb hs => hb.shareTab hs) hlow h₂

/-- No call leaves a frame in an entry that is not present. -/
lemma State.Blank.step {op : Op} (h : s.Blank) (hs : s.step kmallocAp op = .ok s') : s'.Blank := by
  cases op with
  | getPage addr create dir =>
    cases hs
    exact h.getPage
  | mapPage pg usr write addr =>
    cases hs
    exact h.mapPage
  | unmapPage pg =>
    cases hs
    exact h.unmapPage
  | switchPageDirectory dir =>
    cases hs
    exact h.congr (fun _ h => h) rfl
  | copyPgDir dir =>
    obtain ⟨⟨new, s₁⟩, h₁, hs⟩ := bind_ok.mp hs
    cases hs
    exact h.copyPgDir h₁

/-! ## The result -/

/-- The directory that `get_physical` looks at. -/
def State.looked (s : State σ) (pd : Nat) : Nat := if pd = 0 then s.currentDir else pd

/-- `get_physical` returns the physical address of a mapped page, and 0 for others. -/
def Reports (s : State σ) (pd v : Nat) : Prop :=
  (s.Mapped (s.looked pd) v → s.getPhysical v pd =
    (s.entry (s.looked pd) (pdIdx v) (ptIdx v)).addr * pgSz + v % pgSz) ∧
  (¬ s.Mapped (s.looked pd) v → s.getPhysical v pd = 0)

/-- `get_physical` in one formula. -/
lemma State.getPhysical_looked (s : State σ) (pd v : Nat) : s.getPhysical v pd =
    if (s.dirs (s.looked pd)).tables (pdIdx v) ≠ 0 then
      (s.entry (s.looked pd) (pdIdx v) (ptIdx v)).addr * 4096 + v % 4096 else 0 := by
  show (if (s.dirs (s.looked pd)).tables (pdIdx v) ≠ 0 then
    (s.tabs ((s.dirs (s.looked pd)).tables (pdIdx v)) (ptIdx v)).addr * 4096 + v % 4096
      else 0) = _
  by_cases ht : (s.dirs (s.looked pd)).tables (pdIdx v) ≠ 0
  · rw [if_pos ht, if_pos ht, State.entry_of_ne ht]
  · rw [if_neg ht, if_neg ht]

/-- After every run of `get_page`, `map_page`, `unmap_page`, `switch_page_directory` and `copy_pg_dir`
from the `kern_dir` of `vmm_init` on, where `kmalloc_ap` hands out fresh memory, `get_physical` reports
an address as it should exactly when its page is mapped, or there is no table for it, or it is the
first address of its page. -/
theorem reports_iff {l : List Op}
    (hl : LegalRun (State.step kmallocAp) Op.Legal (s.boot kmallocAp) l)
    (h : exec (State.step kmallocAp) (s.boot kmallocAp) l = .ok s') (hf : Fresh s'.log) {pd v : Nat}
    (hd : s'.IsDir (s'.looked pd)) :
    Reports s' pd v ↔ s'.Mapped (s'.looked pd) v ∨
      (s'.dirs (s'.looked pd)).tables (pdIdx v) = 0 ∨ v % pgSz = 0 := by
  have hinv : s'.IsDir s'.kernDir ∧ s'.Blank ∧ (Fresh s'.log → Inv s') := by
    refine exec_ok_inv (I := fun s => s.IsDir s.kernDir ∧ s.Blank ∧ (Fresh s.log → Inv s)) ?_
      (s := s.boot kmallocAp) ⟨State.boot_inv.1, ?_, fun _ => State.boot_inv.2⟩ hl h
    · rintro s op s' ⟨hk, hb, hi⟩ - hs
      obtain ⟨hlog, hkern, hinv⟩ := State.step_keeps hk hs
      exact ⟨hkern ▸ hk.mono hlog, hb.step hs, fun hf => hinv hf (hi (hf.suffix hlog))⟩
    · rintro t ⟨r, hr, ho, -⟩
      obtain rfl := List.mem_singleton.mp hr
      cases ho
  obtain ⟨-, hblank, hI⟩ := hinv
  have hI := hI hf
  have hget := s'.getPhysical_looked pd v
  unfold Reports
  generalize s'.looked pd = d at hd hget ⊢
  by_cases ht : (s'.dirs d).tables (pdIdx v) = 0
  · have hm : ¬ s'.Mapped d v := fun hm => hm.1 ht
    refine iff_of_true ⟨fun h => absurd h hm, fun _ => ?_⟩ (.inr (.inl ht))
    rw [hget, if_neg (not_not.mpr ht)]
  · replace hget := hget.trans (if_pos ht)
    by_cases hm : s'.Mapped d v
    · refine iff_of_true ⟨fun _ => hget, fun h => absurd hm h⟩ (.inl hm)
    · have haddr : (s'.entry d (pdIdx v) (ptIdx v)).addr = 0 := by
        obtain ⟨r, hr, ho, ha, -⟩ := (hI.entry d hd (pdIdx v)).table hf ht
        rw [State.mapped_iff, State.entry_of_ne ht] at hm
        rw [State.entry_of_ne ht]
        exact hblank _ ⟨r, hr, ho, ha⟩ _ (by simpa using hm)
      rw [haddr] at hget
      constructor
      · rintro ⟨-, h⟩
        have h := (hget.symm.trans (h hm))
        refine .inr (.inr ?_)
        simpa using h
      · rintro (h | h | h)
        · exact absurd h hm
        · exact absurd h ht
        · rw [pgSz_eq] at h
          exact ⟨fun h => absurd h hm, fun _ => by rw [hget, h]; rfl⟩

end

/-- A run that makes a table for `0xC0005000` and maps nothing. -/
def oneTable : List Op := [.getPage 0xC0005000 1 0xD0001000]

/-- A run that makes a table is legal. -/
lemma oneTable_legal : LegalRun (State.step placement) Op.Legal (machine.boot placement) oneTable :=
  ⟨⟨⟨.pgDir, 0xD0001000, 0x401000⟩, .head _, rfl, rfl⟩, fun _ _ => trivial⟩

/-- The state after it. -/
def tabled : State Nat := ((machine.boot placement).getPage placement 0xC0005000 1 0xD0001000).2

/-- An address whose page has a table but no frame. -/
theorem reports_iff_table :
    Reports tabled 0xD0001000 0xC0006123 ↔ tabled.Mapped (tabled.looked 0xD0001000) 0xC0006123 ∨
      (tabled.dirs (tabled.looked 0xD0001000)).tables (pdIdx 0xC0006123) = 0 ∨
        0xC0006123 % pgSz = 0 :=
  reports_iff oneTable_legal rfl ⟨by decide, by decide⟩
    ⟨⟨.pgDir, 0xD0001000, 0x401000⟩, by decide, rfl, rfl⟩

/-- The address is not mapped and its offset is reported. -/
theorem not_reports_table :
    exec (State.step placement) (machine.boot placement) oneTable = .ok tabled ∧
      ¬ tabled.Mapped 0xD0001000 0xC0006123 ∧
      tabled.getPhysical 0xC0006123 0xD0001000 = 0x123 ∧ ¬ Reports tabled 0xD0001000 0xC0006123 := by
  have hm : ¬ tabled.Mapped 0xD0001000 0xC0006123 := by decide
  have hp : tabled.getPhysical 0xC0006123 0xD0001000 = 0x123 := by decide
  refine ⟨rfl, hm, hp, fun h => ?_⟩
  have h0 := h.2 hm
  rw [hp] at h0
  cases h0

end ToeS.Vmm
