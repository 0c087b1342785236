import ToeS.Lib.Mmu

/-!
# The way into the higher half

Model of `_start` of `kern/asm/boot.S`, with the places that `kern/link.ld` gives to its text, data and
bss. The kernel is linked at 3 GiB and loaded at 1 MiB. `boot_pd` has one page of 4 MiB for either half,
so that the code can turn paging on, jump, and take the lower one away.
-/

namespace ToeS.Boot
open Lib Lib.Mmu

/-- `KERN_VBASE`. -/
def kernVbase : Nat := 0xC0000000

/-- The addresses of the symbols. The multiboot header is in front of `_start`. -/
structure Layout where
  start : Nat
  bootPd : Nat
  stackBottom : Nat
  kmain : Nat
  start_le : kernVbase + 0x100000 ≤ start
  text_le : start + 76 ≤ bootPd
  kmain_lt : kmain < bootPd
  bootPd_align : bootPd % 0x1000 = 0
  data_le : bootPd + 0x1000 ≤ stackBottom
  stack_align : stackBottom % 0x1000 = 0
  end_lt : stackBottom + 16384 < 4294967296

instance : Inhabited Layout :=
  ⟨⟨0xC0100030, 0xC0103000, 0xC0104000, 0xC0100100, by decide, by decide, by decide, by decide, by decide,
    by decide, by decide⟩⟩

namespace Layout
variable (L : Layout)

/-- `stack_top`. -/
def stackTop : Nat := L.stackBottom + 16384

/-- `higher_half`. -/
def higherHalf : Nat := L.start + 36

/-- From `_start` to the call of `kmain`. -/
def code : List Instr := [
  .movI (.ofNat 32 (L.bootPd - kernVbase)) .ecx,
  .movRC .ecx .cr3,
  .movCR .cr4 .ecx,
  .orI 0x00000010 .ecx,
  .movRC .ecx .cr4,
  .movCR .cr0 .ecx,
  .orI 0x80000000 .ecx,
  .movRC .ecx .cr0,
  .movI (.ofNat 32 L.higherHalf) .edx,
  .jmpR .edx,
  .movIM 0 (.ofNat 32 L.bootPd),
  .invlpg 0,
  .movI (.ofNat 32 L.stackTop) .esp,
  .andI (-16) .esp,
  .pushR .esp,
  .pushR .eax,
  .addI (.ofNat 32 kernVbase) .ebx,
  .pushR .ebx,
  .cli,
  .call (.ofNat 32 L.kmain)]

/-- The text as it is loaded. -/
def text : Text := ⟨L.start - kernVbase, L.code⟩

/-- What the boot loader leaves: the kernel is in memory and paging is off. -/
structure Loaded (c : Cpu) : Prop where
  eip : c.eip = L.start - kernVbase
  off : c.paging = false
  dir : ∀ k < 1024, readWord c.mem (L.bootPd - kernVbase + 4 * k) = if k = 0 ∨ k = 768 then 0x83 else 0

/-- The first instruction of `kmain`, with its arguments on the stack as in `c₀` or as `_start` made
them. Only the higher half is mapped. -/
structure Entered (c₀ c : Cpu) : Prop where
  eip : c.eip = L.kmain
  iflag : c.iflag = false
  esp : (c.reg .esp).toNat = L.stackTop - 16
  ret : c.load (L.stackTop - 16) = .ok (L.start + 76)
  mboot : c.load (L.stackTop - 12) = .ok (c₀.reg .ebx + .ofNat 32 kernVbase).toNat
  mbootMag : c.load (L.stackTop - 8) = .ok (c₀.reg .eax).toNat
  stack : c.load (L.stackTop - 4) = .ok L.stackTop
  mapped : ∀ a < 4294967296, c.translate a =
    if kernVbase ≤ a ∧ a < kernVbase + 0x400000 then .ok (a - kernVbase) else .error .pageFault
  mem : SameOff (fun x => Bytes (L.bootPd - kernVbase) (L.bootPd - kernVbase + 4) x ∨
    Bytes (L.stackTop - 16 - kernVbase) (L.stackTop - kernVbase) x) c₀.mem c.mem

/-- Whatever the TLB does and holds, the instructions of `_start` do not fault and end in `kmain`. -/
def Boots : Prop := ∀ c₀, L.Loaded c₀ → ∀ l : List Action, l.count .exec ≤ 20 →
  ∃ c, exec (Cpu.act L.text) c₀ l = .ok c ∧ (l.count .exec = 20 → L.Entered c₀ c)

end Layout

/-! ## The machine without a TLB -/

/-- The two pages of `boot_pd`. -/
def loPage : Page := ⟨0, 0x400000, 0⟩
@[inherit_doc loPage] def hiPage : Page := ⟨kernVbase, 0x400000, 0⟩

/-- The pages with the lower one or without it. -/
def pages (low : Bool) : List Page := if low then [loPage, hiPage] else [hiPage]

/-- Where an address is, before and after paging is on. -/
def phys (n a : Nat) : Nat := if n < 8 ∨ a < kernVbase then a else a - kernVbase

/-- The machine after `n` instructions. -/
def ideal (L : Layout) (c₀ : Cpu) : Nat → Cpu
  | 0 => c₀.forget
  | n + 1 =>
    let i := L.code.getD n .cli
    let c := (ideal L c₀ n).advance i
    (i.run c (((i.access c).map fun a => phys n a.toNat).getD 0)).forget

/-- Stores words one below the other. -/
def storeDown (m : Mem) (top : Nat) : List Nat → Mem
  | [] => m
  | w :: ws => storeDown (writeWord m (top - 4) w) (top - 4) ws

section
variable {L : Layout} {c₀ c c' : Cpu} {m : Mem} {ws : List Nat} {top a n k q : Nat} {low lowTlb : Bool}

/-- Words that are pushed are written below the top. -/
lemma storeDown_off (h : 4 * ws.length ≤ top) (ht : top ≤ 4294967296) :
    SameOff (Bytes (top - 4 * ws.length) top) m (storeDown m top ws) := by
  induction ws generalizing m top with
  | nil => exact .refl _ _
  | cons w ws ih =>
    rw [List.length_cons] at h ⊢
    have hw : SameOff (Bytes (top - 4) (top - 4 + 4)) m (writeWord m (top - 4) w) :=
      .writeWord (by omega)
    refine (hw.mono fun x hx => ?_).trans ((ih (by omega) (by omega)).mono fun x hx => ?_)
    · exact ⟨by have := hx.1; omega, by have := hx.2; omega⟩
    · exact ⟨by have := hx.1; omega, by have := hx.2; omega⟩

/-- The last word is written last. -/
lemma storeDown_append {w : Nat} : storeDown m top (ws ++ [w]) =
    writeWord (storeDown m top ws) (top - 4 * (ws.length + 1)) w := by
  induction ws generalizing m top with
  | nil => rfl
  | cons v ws ih =>
    rw [List.cons_append, storeDown, storeDown, ih, List.length_cons]
    congr 1
    omega

/-- Each word is where it was pushed. -/
lemma storeDown_read (h : 4 * ws.length ≤ top) (ht : top ≤ 4294967296) (hk : k < ws.length)
    (hw : ∀ w ∈ ws, w < 4294967296) : readWord (storeDown m top ws) (top - 4 * (k + 1)) = ws[k] := by
  induction ws generalizing m top k with
  | nil => cases hk
  | cons w ws ih =>
    rw [List.length_cons] at h hk
    rw [storeDown]
    cases k with
    | zero =>
      have hoff : SameOff (Bytes (top - 4 - 4 * ws.length) (top - 4)) (writeWord m (top - 4) w)
          (storeDown (writeWord m (top - 4) w) (top - 4) ws) := storeDown_off (by omega) (by omega)
      rw [List.getElem_cons_zero, show top - 4 * (0 + 1) = top - 4 by omega,
        hoff.readWord (by omega) fun x hx hx' => ?_]
      · exact readWord_writeWord (by omega) (hw w List.mem_cons_self)
      · have := hx.1
        have := hx'.2
        omega
    | succ k =>
      rw [List.getElem_cons_succ, show top - 4 * (k + 1 + 1) = top - 4 - 4 * (k + 1) by omega]
      exact ih (by omega) (by omega) (by omega) fun w hw' => hw w (List.mem_cons_of_mem _ hw')

/-! ### The text -/

/-- The sizes of the instructions of `_start`. -/
lemma sizes : L.code.map Instr.size = [5, 3, 3, 3, 3, 3, 6, 3, 5, 2, 10, 7, 5, 3, 1, 1, 6, 1, 1, 5] := by
  have h1 : aluSize 0x00000010 = 3 := by decide
  have h2 : aluSize 0x80000000 = 6 := by decide
  have h3 : aluSize (-16) = 3 := by decide
  have h4 : aluSize (.ofNat 32 kernVbase) = 6 := by decide
  simp only [Layout.code, List.map_cons, List.map_nil, Instr.size, h1, h2, h3, h4]

/-- The code of `_start` takes 76 bytes. -/
lemma bytes_code : bytes L.code = 76 := by
  rw [bytes, sizes]
  rfl

/-- The bytes of the first instructions, as a sum. -/
lemma bytes_take : bytes (L.code.take n) =
    ([5, 3, 3, 3, 3, 3, 6, 3, 5, 2, 10, 7, 5, 3, 1, 1, 6, 1, 1, 5].take n).sum := by
  rw [bytes, List.map_take, sizes]

/-- There are twenty instructions. -/
lemma code_getD (hn : n < 20) : L.code[n]? = some (L.code.getD n .cli) := by
  have hlen : n < L.code.length := hn
  rw [List.getD_eq_getElem?_getD, List.getElem?_eq_getElem hlen, Option.getD_some]

/-- `eip` before each of the instructions. -/
lemma ideal_eip (h : L.Loaded c₀) (hn : n < 20) : (ideal L c₀ n).eip =
    (if n < 10 then L.start - kernVbase else L.start) + bytes (L.code.take n) := by
  have hsum : ∀ n < 20, bytes (L.code.take (n + 1)) =
      bytes (L.code.take n) + (L.code.getD n .cli).size := fun n hn => bytes_take_succ (code_getD hn)
  have hlow : ∀ n ≤ 9, (ideal L c₀ n).eip = L.start - kernVbase + bytes (L.code.take n) := by
    intro n hn
    induction n with
    | zero =>
      rw [List.take_zero, show bytes [] = 0 from rfl, Nat.add_zero]
      exact h.eip
    | succ n ih =>
      have hrun : (ideal L c₀ (n + 1)).eip = (ideal L c₀ n).eip + (L.code.getD n .cli).size := by
        have : n < 9 := hn
        interval_cases n <;> rfl
      rw [hrun, ih (by omega), hsum n (by omega), Nat.add_assoc]
  split_ifs with h10
  · exact hlow n (by omega)
  · induction n with
    | zero => omega
    | succ n ih =>
      by_cases h9 : n = 9
      · subst h9
        have hlt := L.end_lt
        have := L.text_le
        have := L.data_le
        have hjmp : (ideal L c₀ (9 + 1)).eip = (BitVec.ofNat 32 L.higherHalf).toNat := rfl
        have hten : bytes (L.code.take (9 + 1)) = 36 := bytes_take.trans rfl
        rw [hjmp, hten, BitVec.toNat_ofNat, Layout.higherHalf]
        omega
      · have hrun : (ideal L c₀ (n + 1)).eip = (ideal L c₀ n).eip + (L.code.getD n .cli).size := by
          have : 10 ≤ n := by omega
          have : n < 19 := by omega
          interval_cases n <;> rfl
        rw [hrun, ih (by omega) (by omega), hsum n (by omega), Nat.add_assoc]

/-! ### Paging -/

/-- Paging is on with `boot_pd`. -/
structure Dir (L : Layout) (low : Bool) (c : Cpu) : Prop where
  on : c.paging = true
  pse : (c.cr .cr4).getLsbD 4 = true
  cr3 : (c.cr .cr3).toNat = L.bootPd - kernVbase
  words : ∀ k < 1024, readWord c.mem (L.bootPd - kernVbase + 4 * k) =
    if (low = true ∧ k = 0) ∨ k = 768 then 0x83 else 0

/-- The low page is the first 4 MiB. -/
@[simp] lemma loPage_has : loPage.Has a ↔ a < 0x400000 := by
  simp [Page.Has, loPage]

/-- The high page is the 4 MiB from `KERN_VBASE` on. -/
@[simp] lemma hiPage_has : hiPage.Has a ↔ kernVbase ≤ a ∧ a < kernVbase + 0x400000 := Iff.rfl

/-- The low page maps each address to itself. -/
@[simp] lemma loPage_phys : loPage.phys a = a := by
  simp [Page.phys, loPage]

/-- The high page maps each address to the one without the base. -/
@[simp] lemma hiPage_phys : hiPage.phys a = a - kernVbase := by
  simp [Page.phys, hiPage]

/-- The pages that are mapped are the high one, and the low one as long as it is there. -/
lemma mem_pages {p : Page} : p ∈ pages low ↔ low = true ∧ p = loPage ∨ p = hiPage := by
  cases low <;> simp [pages]

/-- No address is in both. -/
lemma pages_apart {p q : Page} (hp : p ∈ pages low) (hq : q ∈ pages low) (ha : p.Has a) (ha' : q.Has a) :
    p = q := by
  have hlt : 0x400000 ≤ kernVbase := by decide
  rcases mem_pages.mp hp with ⟨-, rfl⟩ | rfl <;> rcases mem_pages.mp hq with ⟨-, rfl⟩ | rfl
  · rfl
  · rw [loPage_has] at ha
    rw [hiPage_has] at ha'
    omega
  · rw [hiPage_has] at ha
    rw [loPage_has] at ha'
    omega
  · rfl

/-- A walk through the boot directory finds the page that has the address. -/
lemma Dir.walk (D : Dir L low c) (ha : a < 4294967296) :
    c.walk a = (pages low).find? (·.Has a) := by
  have hcr3 : (c.cr .cr3).toNat / 4096 * 4096 = L.bootPd - kernVbase := by
    have := L.bootPd_align
    rw [D.cr3, kernVbase]
    omega
  have hword := D.words (a / 4194304) (by omega)
  have hbig : (c.cr .cr4).getLsbD 4 = true ∧ (0x83 : Nat).testBit 7 := ⟨D.pse, by decide⟩
  have hodd : ¬ (0x83 : Nat) % 2 = 0 := by decide
  have hbase : kernVbase = 768 * 4194304 := rfl
  by_cases hlo : low = true ∧ a < 0x400000
  · have hk : a / 4194304 = 0 := by omega
    rw [if_pos (.inl ⟨hlo.1, hk⟩), hk] at hword
    have hfind : (pages low).find? (·.Has a) = some loPage := by
      rw [hlo.1]
      exact List.find?_cons_of_pos (by simpa using hlo.2)
    simp only [Cpu.walk, hcr3, hword, if_neg hodd, if_pos hbig, hk, hfind]
    rfl
  have hfind : (pages low).find? (·.Has a) = [hiPage].find? (·.Has a) := by
    cases low with
    | false => rfl
    | true => exact List.find?_cons_of_neg (by simpa using fun h => hlo ⟨rfl, h⟩)
  by_cases hhi : hiPage.Has a
  · have hk : a / 4194304 = 768 := by
      rw [hiPage_has] at hhi
      omega
    rw [if_pos (.inr hk), hk] at hword
    rw [hfind, List.find?_cons_of_pos (by simpa using hhi)]
    simp only [Cpu.walk, hcr3, hword, if_neg hodd, if_pos hbig, hk]
    rfl
  · have hk : ¬ ((low = true ∧ a / 4194304 = 0) ∨ a / 4194304 = 768) := by
      rw [hiPage_has] at hhi
      rintro (⟨hl, hk⟩ | hk)
      · exact hlo ⟨hl, by omega⟩
      · omega
    rw [if_neg hk] at hword
    rw [hfind, List.find?_cons_of_neg (by simpa using hhi), List.find?_nil]
    simp only [Cpu.walk, hcr3, hword, Nat.zero_mod, if_true]

/-- With such a directory and a translation buffer that holds some of its pages, these are mapped. -/
lemma Dir.maps (D : Dir L low c) (ht : ∀ p ∈ c.tlb, p ∈ pages lowTlb) (hl : low = true → lowTlb = true) :
    Maps (pages low) (pages lowTlb) c where
  on := D.on
  walk _ ha := D.walk ha
  tlb := ht
  dir p hp := mem_pages.mpr ((mem_pages.mp hp).imp (fun h => ⟨hl h.1, h.2⟩) id)
  apart p hp q hq a := pages_apart hp hq
  inside p hp := by
    rcases mem_pages.mp hp with ⟨-, rfl⟩ | rfl <;> decide

/-! ### What the instructions do -/

/-- Paging is off up to the eighth instruction. -/
lemma ideal_off (h : L.Loaded c₀) (hn : n < 8) : (ideal L c₀ n).paging = false := by
  have hcr : (ideal L c₀ n).paging = c₀.paging := by interval_cases n <;> rfl
  rw [hcr, h.off]

/-- Nothing is stored before the directory is changed. -/
lemma ideal_mem (hn : n ≤ 10) : (ideal L c₀ n).mem = c₀.mem := by
  interval_cases n <;> rfl

/-- The words on the stack of `kmain`, the return address last. -/
def frame (L : Layout) (c₀ : Cpu) : List Nat :=
  [L.stackTop, (c₀.reg .eax).toNat, (c₀.reg .ebx + .ofNat 32 kernVbase).toNat, L.start + 76]

/-- How many of them are there before an instruction. -/
def depth (n : Nat) : Nat := if n < 15 then 0 else if n < 16 then 1 else if n < 18 then 2 else if n < 20 then 3 else 4

/-- The boot stack lies above the first MiB and behind the directory, and ends on a page boundary. -/
lemma stackTop_bounds (L : Layout) : kernVbase + 0x100000 + 20480 ≤ L.stackTop ∧
    L.bootPd + 20480 ≤ L.stackTop ∧ L.stackTop < 4294967296 ∧ L.stackTop % 4096 = 0 := by
  have := L.start_le
  have := L.text_le
  have := L.data_le
  have := L.end_lt
  have := L.stack_align
  unfold Layout.stackTop
  omega

/-- The stack is aligned as it is. -/
lemma and_stackTop : BitVec.ofNat 32 L.stackTop &&& (-16) = .ofNat 32 L.stackTop := by
  obtain ⟨-, -, -, halign⟩ := stackTop_bounds L
  refine BitVec.eq_of_getLsbD_eq fun i hi => ?_
  rw [BitVec.getLsbD_and, BitVec.getLsbD_ofNat]
  by_cases h4 : i < 4
  · have hbit : L.stackTop.testBit i = false := by
      rw [Nat.testBit_eq_decide_div_mod_eq]
      interval_cases i <;> simp <;> omega
    rw [hbit, Bool.and_false, Bool.false_and]
  · have hone : (-16 : BitVec 32).getLsbD i = true := by
      have : 4 ≤ i := by omega
      interval_cases i <;> rfl
    rw [hone, Bool.and_true]

/-- `add` changes one register. -/
lemma ideal_addI {imm : BitVec 32} {dst : X86.Reg} (h : L.code.getD n .cli = .addI imm dst) :
    (ideal L c₀ (n + 1)).reg =
      Function.update (ideal L c₀ n).reg dst ((ideal L c₀ n).reg dst + imm) := by
  rw [ideal]
  simp only [h]
  rfl

/-- `esp` from the alignment on. -/
lemma ideal_esp (hn : 14 ≤ n) (hn' : n ≤ 20) :
    (ideal L c₀ n).reg .esp = .ofNat 32 (L.stackTop - 4 * depth n) := by
  obtain ⟨hlo, -, hlt, -⟩ := stackTop_bounds L
  have h14 : (ideal L c₀ 14).reg .esp = .ofNat 32 (L.stackTop - 4 * 0) := by
    rw [Nat.mul_zero, Nat.sub_zero, ← and_stackTop]
    rfl
  have hpush : ∀ i j k, k ≤ 3 → (ideal L c₀ j).reg .esp = (ideal L c₀ i).reg .esp - 4 →
      (ideal L c₀ i).reg .esp = .ofNat 32 (L.stackTop - 4 * k) →
      (ideal L c₀ j).reg .esp = .ofNat 32 (L.stackTop - 4 * (k + 1)) := by
    intro i j k hk hj hi
    rw [hj, hi]
    unfold kernVbase at hlo
    bv_omega
  have h15 := hpush 14 15 0 (by decide) rfl h14
  have h16 := hpush 15 16 1 (by decide) rfl h15
  have h17 : (ideal L c₀ 17).reg .esp = .ofNat 32 (L.stackTop - 4 * 2) := by
    rw [ideal_addI (n := 16) rfl, Function.update_of_ne (by decide), h16]
  have h18 := hpush 17 18 2 (by decide) rfl h17
  have h20 := hpush 18 20 3 (by decide) rfl h18
  interval_cases n
  · exact h14
  · exact h15
  · exact h16
  · exact h17
  · exact h18
  · exact h18
  · exact h20

/-- The directory entry of the lower half is taken away. -/
lemma ideal_cleared : (ideal L c₀ 11).mem = writeWord c₀.mem (L.bootPd - kernVbase) 0 := by
  have hrun : (ideal L c₀ 11).mem =
      writeWord (ideal L c₀ 10).mem (phys 10 (BitVec.ofNat 32 L.bootPd).toNat) 0 := rfl
  have hphys : phys 10 (BitVec.ofNat 32 L.bootPd).toNat = L.bootPd - kernVbase := by
    have := L.start_le
    have := L.text_le
    have := stackTop_bounds L
    rw [phys, BitVec.toNat_ofNat, Nat.mod_eq_of_lt (by omega), if_neg (by omega)]
  rw [hrun, hphys, ideal_mem le_rfl]

/-- An instruction without access to memory leaves it. -/
lemma ideal_noStore (h : ∀ c, (L.code.getD n .cli).access c = none) :
    (ideal L c₀ (n + 1)).mem = (ideal L c₀ n).mem := by
  rw [ideal]
  exact Instr.run_mem (h _)

/-- A push writes its register below the top of the stack. -/
lemma ideal_pushR {src : X86.Reg} (h : L.code.getD n .cli = .pushR src) : (ideal L c₀ (n + 1)).mem =
    writeWord (ideal L c₀ n).mem (phys n ((ideal L c₀ n).reg .esp - 4).toNat)
      ((ideal L c₀ n).reg src).toNat := by
  rw [ideal]
  simp only [h]
  rfl

/-- The call writes its return address there. -/
lemma ideal_call {target : BitVec 32} (h : L.code.getD n .cli = .call target) : (ideal L c₀ (n + 1)).mem =
    writeWord (ideal L c₀ n).mem (phys n ((ideal L c₀ n).reg .esp - 4).toNat)
      ((ideal L c₀ n).eip + 5) := by
  rw [ideal]
  simp only [h]
  rfl

/-- The place of the next word on the stack. -/
lemma phys_push (hn : 14 ≤ n) (hn' : n < 20) : phys n ((ideal L c₀ n).reg .esp - 4).toNat =
    L.stackTop - kernVbase - 4 * (depth n + 1) := by
  obtain ⟨hlo, -, hlt, -⟩ := stackTop_bounds L
  have hd : depth n ≤ 3 := by
    unfold depth
    split_ifs <;> omega
  have hesp : ((ideal L c₀ n).reg .esp - 4).toNat = L.stackTop - 4 * (depth n + 1) := by
    rw [ideal_esp hn hn'.le]
    unfold kernVbase at hlo
    bv_omega
  rw [hesp, phys, if_neg (by omega)]
  omega

/-- The memory after `n` instructions, if the directory entry is cleared and the first words of the frame
are on the stack. -/
def Stacked (L : Layout) (c₀ : Cpu) (n : Nat) : Prop := (ideal L c₀ n).mem =
  storeDown (writeWord c₀.mem (L.bootPd - kernVbase) 0) (L.stackTop - kernVbase)
    ((frame L c₀).take (depth n))

/-- A word more is on the stack when it has been written below the top. -/
lemma Stacked.push {w : Nat} (h : Stacked L c₀ n) (hn : 14 ≤ n) (hn' : n < 20)
    (hmem : (ideal L c₀ (n + 1)).mem =
      writeWord (ideal L c₀ n).mem (phys n ((ideal L c₀ n).reg .esp - 4).toNat) w)
    (hw : (frame L c₀).take (depth (n + 1)) = (frame L c₀).take (depth n) ++ [w]) :
    Stacked L c₀ (n + 1) := by
  have hlen : ((frame L c₀).take (depth n)).length = depth n := by
    rw [List.length_take]
    refine Nat.min_eq_left ?_
    show depth n ≤ 4
    unfold depth
    split_ifs <;> omega
  rw [Stacked, hmem, hw, storeDown_append, hlen, phys_push hn hn', h]

/-- An instruction that leaves memory and the depth alone keeps the stack. -/
lemma Stacked.keep (h : Stacked L c₀ n) (hi : ∀ c, (L.code.getD n .cli).access c = none)
    (hd : depth (n + 1) = depth n) : Stacked L c₀ (n + 1) := by
  rw [Stacked, ideal_noStore hi, hd, h]

/-- Once the low page is out of the directory, memory holds what has been pushed. -/
lemma ideal_stack (h : L.Loaded c₀) (hn : 11 ≤ n) (hn' : n ≤ 20) : Stacked L c₀ n := by
  obtain ⟨hlo, -, hlt, -⟩ := stackTop_bounds L
  have h11 : Stacked L c₀ 11 := ideal_cleared
  have h12 : Stacked L c₀ 12 := h11.keep (fun _ => rfl) rfl
  have h13 : Stacked L c₀ 13 := h12.keep (fun _ => rfl) rfl
  have h14 : Stacked L c₀ 14 := h13.keep (fun _ => rfl) rfl
  have h15 : Stacked L c₀ 15 := by
    refine h14.push (by decide) (by decide) (ideal_pushR rfl) ?_
    rw [ideal_esp (by decide) (by decide), show depth 14 = 0 from rfl, BitVec.toNat_ofNat,
      Nat.mod_eq_of_lt (by omega)]
    rfl
  have h16 : Stacked L c₀ 16 := by
    have heax : (ideal L c₀ 15).reg .eax = c₀.reg .eax := rfl
    refine h15.push (by decide) (by decide) (ideal_pushR rfl) ?_
    rw [heax]
    rfl
  have h17 : Stacked L c₀ 17 := h16.keep (fun _ => rfl) rfl
  have h18 : Stacked L c₀ 18 := by
    have hebx : (ideal L c₀ 16).reg .ebx = c₀.reg .ebx := rfl
    refine h17.push (by decide) (by decide) (ideal_pushR rfl) ?_
    rw [ideal_addI (n := 16) rfl, Function.update_self, hebx]
    rfl
  have h19 : Stacked L c₀ 19 := h18.keep (fun _ => rfl) rfl
  have h20 : Stacked L c₀ 20 := by
    refine h19.push (by decide) (by decide) (ideal_call rfl) ?_
    rw [ideal_eip h (by decide), bytes_take]
    rfl
  interval_cases n
  · exact h11
  · exact h12
  · exact h13
  · exact h14
  · exact h15
  · exact h16
  · exact h17
  · exact h18
  · exact h19
  · exact h20

/-- `boot_pd` after an instruction. -/
lemma ideal_word (h : L.Loaded c₀) (hn : n ≤ 20) (hk : k < 1024) :
    readWord (ideal L c₀ n).mem (L.bootPd - kernVbase + 4 * k) =
      if (decide (n ≤ 10) = true ∧ k = 0) ∨ k = 768 then 0x83 else 0 := by
  obtain ⟨hlo, htop, hlt, -⟩ := stackTop_bounds L
  have hstart := L.start_le
  have htext := L.text_le
  by_cases h10 : n ≤ 10
  · rw [ideal_mem h10, h.dir k hk]
    simp only [h10, decide_true, true_and]
  · have hlen : ((frame L c₀).take (depth n)).length ≤ 4 := List.length_take_le' _ _
    have hoff : SameOff (Bytes (L.stackTop - kernVbase - 16) (L.stackTop - kernVbase))
        (writeWord c₀.mem (L.bootPd - kernVbase) 0) (ideal L c₀ n).mem := by
      rw [ideal_stack h (by omega) hn]
      refine (storeDown_off (by omega) (by omega)).mono fun x hx => ⟨?_, hx.2⟩
      have := hx.1
      omega
    rw [hoff.readWord (by omega) fun x hx hx' => by have := hx.2; have := hx'.1; omega]
    have hdec : decide (n ≤ 10) = false := decide_eq_false h10
    simp only [hdec, Bool.false_eq_true, false_and, false_or]
    by_cases h0 : k = 0
    · rw [h0, Nat.mul_zero, Nat.add_zero, readWord_writeWord (by omega) (by decide)]
      rfl
    · rw [readWord_writeWord_ne (by omega) (by omega) (by omega), h.dir k hk]
      simp only [h0, false_or]

/-- From the load of `cr3` on the directory has the low page until it is taken away. -/
lemma ideal_dir (h : L.Loaded c₀) (hn : 8 ≤ n) (hn' : n ≤ 20) :
    Dir L (decide (n ≤ 10)) (ideal L c₀ n) := by
  have hcr0 : (ideal L c₀ n).cr .cr0 = c₀.cr .cr0 ||| 0x80000000 := by interval_cases n <;> rfl
  have hcr4 : (ideal L c₀ n).cr .cr4 = c₀.cr .cr4 ||| 0x00000010 := by interval_cases n <;> rfl
  have hcr3 : (ideal L c₀ n).cr .cr3 = .ofNat 32 (L.bootPd - kernVbase) := by interval_cases n <;> rfl
  refine ⟨?_, ?_, ?_, fun k hk => ideal_word h hn' hk⟩
  · rw [Cpu.paging, hcr0, BitVec.getLsbD_or]
    exact Bool.or_true _
  · rw [hcr4, BitVec.getLsbD_or]
    exact Bool.or_true _
  · have := stackTop_bounds L
    rw [hcr3, BitVec.toNat_ofNat, Nat.mod_eq_of_lt (by omega)]

/-! ### The machine with its TLB -/

/-- The machine is where it would be without the TLB. As long as the lower half is in the directory, and
until `invlpg`, the TLB may have it. -/
structure At (L : Layout) (c₀ : Cpu) (n : Nat) (c : Cpu) : Prop where
  same : c.forget = ideal L c₀ n
  tlb : 8 ≤ n → ∀ p ∈ c.tlb, p ∈ pages (decide (n ≤ 11))

/-- Events between the instructions do not move `eip`. -/
lemma At.eip (A : At L c₀ n c) : c.eip = (ideal L c₀ n).eip := by
  rw [← A.same]
  rfl

/-- Between the instructions the translation buffer holds pages only that the directory has or had. -/
lemma At.maps (A : At L c₀ n c) (h : L.Loaded c₀) (hn : 8 ≤ n) (hn' : n ≤ 20) :
    Maps (pages (decide (n ≤ 10))) (pages (decide (n ≤ 11))) c := by
  have D := ideal_dir h hn hn'
  rw [← A.same] at D
  have D' : Dir L (decide (n ≤ 10)) c := ⟨D.on, D.pse, D.cr3, D.words⟩
  exact D'.maps (A.tlb hn) fun h => by simp at h ⊢; omega

/-- Without paging an address is its own. -/
lemma At.off (A : At L c₀ n c) (h : L.Loaded c₀) (hn : n < 8) : c.translate a = .ok a := by
  have hoff := ideal_off h hn
  rw [← A.same] at hoff
  rw [Cpu.translate, if_neg]
  exact fun hon => Bool.false_ne_true (hoff.symm.trans hon)

/-- An address is in a page that is mapped. -/
def Reaches (n a : Nat) : Prop :=
  8 ≤ n → (n ≤ 10 ∧ a < 0x400000) ∨ (kernVbase ≤ a ∧ a < kernVbase + 0x400000)

/-- An address that the code reaches is translated as the ideal machine does it. -/
lemma At.translate (A : At L c₀ n c) (h : L.Loaded c₀) (hn : n ≤ 20) (ha : Reaches n a) :
    c.translate a = .ok (phys n a) := by
  by_cases h8 : n < 8
  · rw [A.off h h8, phys, if_pos (.inl h8)]
  · have M := A.maps h (by omega) hn
    rcases ha (by omega) with ⟨h10, hlo⟩ | hhi
    · have hmem : loPage ∈ pages (decide (n ≤ 10)) := mem_pages.mpr (.inl ⟨decide_eq_true h10, rfl⟩)
      have hlt : 0x400000 ≤ kernVbase := by decide
      rw [M.translate_page hmem (loPage_has.mpr hlo), loPage_phys, phys, if_pos (.inr (by omega))]
    · rw [M.translate_page (mem_pages.mpr (.inr rfl)) (hiPage_has.mpr hhi), hiPage_phys, phys,
        if_neg (by omega)]

/-- An address that is translated at all is translated so. -/
lemma At.translate_ok (A : At L c₀ n c) (h : L.Loaded c₀) (hn : n ≤ 20) (ha : a < 4294967296)
    (hq : c.translate a = .ok q) : q = phys n a := by
  by_cases h8 : n < 8
  · rw [A.off h h8] at hq
    rw [phys, if_pos (.inl h8)]
    exact (Except.ok.inj hq).symm
  · obtain ⟨p, hp, hpa, rfl⟩ := (A.maps h (by omega) hn).translate_ok ha hq
    have hlt : 0x400000 ≤ kernVbase := by decide
    rcases mem_pages.mp hp with ⟨-, rfl⟩ | rfl
    · rw [loPage_has] at hpa
      rw [loPage_phys, phys, if_pos (.inr (by omega))]
    · rw [hiPage_has] at hpa
      rw [hiPage_phys, phys, if_neg (by omega)]

/-- `eip` points at the instruction that comes next, also for the processor. -/
lemma ideal_eip_bounds (h : L.Loaded c₀) (hn : n < 20) : (ideal L c₀ n).eip < 4294967296 ∧
    phys n (ideal L c₀ n).eip = L.start - kernVbase + bytes (L.code.take n) := by
  obtain ⟨-, htop, hlt, -⟩ := stackTop_bounds L
  have hlo := L.start_le
  have htext := L.text_le
  have hlen : bytes (L.code.take n) ≤ 76 := bytes_take_le.trans_eq bytes_code
  have hbase : kernVbase = 3221225472 := rfl
  rw [ideal_eip h hn, phys]
  split_ifs <;> omega

/-- Where the next instruction is found, it is the right one. -/
lemma At.fetch (A : At L c₀ n c) (h : L.Loaded c₀) (hn : n < 20)
    (hq : c.translate c.eip = .ok (phys n c.eip)) : c.fetch L.text = .ok (L.code.getD n .cli) := by
  have hphys := (ideal_eip_bounds h hn).2
  rw [← A.eip] at hphys
  refine Cpu.fetch_of_place hq ?_ ?_
  · rw [hphys]
    exact Nat.le_add_right ..
  · rw [hphys, show L.text.base = L.start - kernVbase from rfl, Nat.add_sub_cancel_left]
    exact place_bytes (code_getD hn)

/-- The next instruction, with its word stored where it should be. -/
lemma At.succ (A : At L c₀ n c) (hn : n < 20) : At L c₀ (n + 1) ((L.code.getD n .cli).run
    (c.advance (L.code.getD n .cli))
    ((((L.code.getD n .cli).access c).map fun a => phys n a.toNat).getD 0)) := by
  constructor
  · have hadv : ∀ i, (c.advance i).forget = (ideal L c₀ n).advance i := fun i => by
      rw [← A.same]
      rfl
    have hacc : ∀ i : Instr, i.access ((ideal L c₀ n).advance i) = i.access c := fun i => by
      rw [← A.same, Instr.access_advance, Instr.access_forget]
    rw [Instr.run_forget, hadv, ideal, hacc]
  · intro h8 p hp
    by_cases h7 : n = 7
    · subst h7
      cases hp
    have hmem := A.tlb (by omega) p (Instr.mem_tlb (c := c.advance _) hp)
    by_cases h11 : n = 11
    · subst h11
      have hfilter : p ∈ c.tlb.filter (¬ ·.Has 0) := hp
      have hnot : ¬ p.Has 0 := by simpa using (List.mem_filter.mp hfilter).2
      rcases mem_pages.mp hmem with ⟨-, rfl⟩ | rfl
      · exact absurd (loPage_has.mpr (by decide)) hnot
      · exact mem_pages.mpr (.inr rfl)
    · refine mem_pages.mpr ((mem_pages.mp hmem).imp (fun h => ⟨?_, h.2⟩) id)
      have := h.1
      simp only [decide_eq_true_eq] at this ⊢
      omega

/-- An instruction that does not fault does what it should. -/
lemma At.step (A : At L c₀ n c) (h : L.Loaded c₀) (hn : n < 20) (hs : c.step L.text = .ok c') :
    At L c₀ (n + 1) c' := by
  obtain ⟨i, p, hi, hp, rfl⟩ := Cpu.step_ok.mp hs
  obtain ⟨q, hq, -⟩ := bind_ok.mp hi
  have hlt : c.eip < 4294967296 := A.eip ▸ (ideal_eip_bounds h hn).1
  rw [A.translate_ok h hn.le hlt hq] at hq
  rw [A.fetch h hn hq] at hi
  obtain rfl := Except.ok.inj hi
  have hphys : p = (((L.code.getD n .cli).access c).map fun a => phys n a.toNat).getD 0 := by
    cases hacc : (L.code.getD n .cli).access c with
    | none =>
      rw [hacc] at hp
      exact (Except.ok.inj hp).symm
    | some a =>
      rw [hacc] at hp
      obtain ⟨q, hq, hp⟩ := bind_ok.mp hp
      have hq : c.translate a.toNat = .ok q := hq
      split at hp
      · rw [← Except.ok.inj hp, A.translate_ok h hn.le a.isLt hq]
        rfl
      · cases hp
  rw [hphys]
  exact A.succ hn

/-- What the instructions store to: the directory, and the words of the stack. -/
lemma ideal_access (hn : n < 20) : (L.code.getD n .cli).access (ideal L c₀ n) = none ∨
    (n = 10 ∧ (L.code.getD n .cli).access (ideal L c₀ n) = some (.ofNat 32 L.bootPd)) ∨
    (14 ≤ n ∧ (L.code.getD n .cli).access (ideal L c₀ n) =
      some (.ofNat 32 (L.stackTop - 4 * depth n) - 4)) := by
  have hpush : ∀ n, 14 ≤ n → n ≤ 20 → some ((ideal L c₀ n).reg .esp - 4) =
      some (.ofNat 32 (L.stackTop - 4 * depth n) - 4) := fun n h h' => by rw [ideal_esp h h']
  interval_cases n
  all_goals first
    | exact .inl rfl
    | exact .inr (.inl ⟨rfl, rfl⟩)
    | exact .inr (.inr ⟨by decide, hpush _ (by decide) (by decide)⟩)

/-- At most three words are on the stack. -/
lemma depth_le (hn : n < 20) : depth n ≤ 3 := by
  unfold depth
  split_ifs <;> omega

/-- No instruction faults, if the stack is in the page. -/
lemma At.step_total (A : At L c₀ n c) (h : L.Loaded c₀) (hn : n < 20)
    (hend : L.stackTop ≤ kernVbase + 0x400000) : ∃ c', c.step L.text = .ok c' ∧ At L c₀ (n + 1) c' := by
  obtain ⟨hlo, htop, hlt, -⟩ := stackTop_bounds L
  have hstart := L.start_le
  have htext := L.text_le
  have hlen : bytes (L.code.take n) ≤ 76 := bytes_take_le.trans_eq bytes_code
  have hreach : Reaches n c.eip := by
    intro h8
    rw [A.eip, ideal_eip h hn]
    split_ifs <;> omega
  have hfetch := A.fetch h hn (A.translate h hn.le hreach)
  have htarget : ∃ p, (c.advance (L.code.getD n .cli)).target L.text ((L.code.getD n .cli).access c) =
      .ok p := by
    have hstore : ∀ a : BitVec 32, L.bootPd ≤ a.toNat → 10 ≤ n → a.toNat + 4 ≤ L.stackTop →
        ∃ p, (c.advance (L.code.getD n .cli)).target L.text (some a) = .ok p := by
      intro a ha h10 ha'
      have hq : (c.advance (L.code.getD n .cli)).translate a.toNat = .ok (phys n a.toNat) :=
        A.translate h hn.le fun _ => .inr (by omega)
      have hbytes : bytes L.text.code = 76 := bytes_code
      have hbase : L.text.base = L.start - kernVbase := rfl
      refine ⟨phys n a.toNat, ?_⟩
      rw [Cpu.target, hq, ok_bind, if_pos]
      right
      rw [hbytes, hbase, phys, if_neg (by omega)]
      omega
    have hacc : (L.code.getD n .cli).access c = (L.code.getD n .cli).access (ideal L c₀ n) := by
      rw [← A.same, Instr.access_forget]
    have hd := depth_le hn
    rw [hacc]
    rcases (ideal_access hn : (L.code.getD n .cli).access (ideal L c₀ n) = none ∨ _ ∨ _) with
      ha | ⟨h10, ha⟩ | ⟨h14, ha⟩
    · exact ⟨0, by rw [ha]; rfl⟩
    · rw [ha]
      refine hstore _ ?_ h10.ge ?_ <;> rw [BitVec.toNat_ofNat] <;> omega
    · have hval : (BitVec.ofNat 32 (L.stackTop - 4 * depth n) - 4).toNat =
          L.stackTop - 4 * depth n - 4 := by
        unfold kernVbase at hlo
        bv_omega
      rw [ha]
      refine hstore _ ?_ (by omega) ?_ <;> rw [hval] <;> omega
  obtain ⟨p, hp⟩ := htarget
  have hstep := Cpu.step_ok.mpr ⟨_, p, hfetch, hp, rfl⟩
  exact ⟨_, hstep, A.step h hn hstep⟩

/-- The first push faults, if the stack is not in the page. -/
lemma At.step_push (A : At L c₀ 14 c) (h : L.Loaded c₀) (hs : c.step L.text = .ok c') :
    L.stackTop ≤ kernVbase + 0x400000 := by
  obtain ⟨hlo, -, hlt, halign⟩ := stackTop_bounds L
  obtain ⟨i, p, hi, hp, rfl⟩ := Cpu.step_ok.mp hs
  obtain ⟨q, hq, -⟩ := bind_ok.mp hi
  have heip : c.eip < 4294967296 := A.eip ▸ (ideal_eip_bounds h (by decide)).1
  rw [A.translate_ok h (by decide) heip hq] at hq
  rw [A.fetch h (by decide) hq] at hi
  obtain rfl := Except.ok.inj hi
  have hesp : c.reg .esp = .ofNat 32 L.stackTop := by
    have hreg : c.reg = (ideal L c₀ 14).reg := by
      rw [← A.same]
      rfl
    rw [hreg, ideal_esp (by decide) (by decide)]
    rfl
  have hval : (c.reg .esp - 4).toNat = L.stackTop - 4 := by
    rw [hesp]
    unfold kernVbase at hlo
    bv_omega
  obtain ⟨q, hq, -⟩ := bind_ok.mp hp
  have hq : c.translate (L.stackTop - 4) = .ok q := hval ▸ hq
  obtain ⟨p, hp, hpa, -⟩ := (A.maps h (by decide) (by decide)).translate_ok (by omega) hq
  have hbase : kernVbase % 4096 = 0 := by decide
  rcases mem_pages.mp hp with ⟨hfalse, -⟩ | rfl
  · exact absurd hfalse (by decide)
  · rw [hiPage_has] at hpa
    omega

/-! ### Runs -/

/-- The TLB remembers a translation of the directory, or forgets one. -/
lemma At.other {i : Action} (A : At L c₀ n c) (h : L.Loaded c₀) (hn : n ≤ 20) (hi : i ≠ .exec) :
    ∃ c', c.act L.text i = .ok c' ∧ At L c₀ n c' := by
  cases i with
  | exec => exact absurd rfl hi
  | evict k => exact ⟨_, rfl, A.same, fun h8 p hp => A.tlb h8 p (List.mem_of_mem_eraseIdx hp)⟩
  | fill a =>
    rw [Cpu.act]
    split
    · cases hw : c.walk a.toNat with
      | none => exact ⟨c, rfl, A⟩
      | some p =>
        refine ⟨_, rfl, A.same, fun h8 q hq => ?_⟩
        rcases List.mem_cons.mp hq with rfl | hq
        · have M := A.maps h h8 hn
          rw [M.walk _ a.isLt] at hw
          exact M.dir _ (List.mem_of_find?_eq_some hw)
        · exact A.tlb h8 q hq
    · exact ⟨c, rfl, A⟩

/-- A run with any events between the instructions does what the ideal machine does. -/
lemma At.exec {l : List Action} (A : At L c₀ n c) (h : L.Loaded c₀)
    (hend : L.stackTop ≤ kernVbase + 0x400000) (hl : n + l.count .exec ≤ 20) :
    ∃ c', Lib.exec (Cpu.act L.text) c l = .ok c' ∧ At L c₀ (n + l.count .exec) c' := by
  induction l generalizing n c with
  | nil => exact ⟨c, rfl, A⟩
  | cons i l ih =>
    by_cases hi : i = .exec
    · subst hi
      rw [List.count_cons_self] at hl ⊢
      obtain ⟨c₁, h₁, A₁⟩ := A.step_total h (by omega) hend
      obtain ⟨c', h', A'⟩ := ih A₁ (by omega)
      refine ⟨c', (exec_cons h₁).trans h', ?_⟩
      rwa [Nat.add_assoc, Nat.add_comm 1] at A'
    · rw [List.count_cons_of_ne hi] at hl ⊢
      obtain ⟨c₁, h₁, A₁⟩ := A.other h (by omega) hi
      obtain ⟨c', h', A'⟩ := ih A₁ hl
      exact ⟨c', (exec_cons h₁).trans h', A'⟩

/-- The loaded machine is at the beginning. -/
lemma at_loaded (L : Layout) (c₀ : Cpu) : At L c₀ 0 c₀ :=
  ⟨rfl, fun h => absurd h (by decide)⟩

/-- Instructions that do not fault, with nothing between them. -/
lemma At.replicate (A : At L c₀ n c) (h : L.Loaded c₀) (hk : n + k ≤ 20)
    (hr : Lib.exec (Cpu.act L.text) c (List.replicate k .exec) = .ok c') : At L c₀ (n + k) c' := by
  induction k generalizing n c with
  | zero => exact Except.ok.inj hr ▸ A
  | succ k ih =>
    obtain ⟨c₁, h₁, hr⟩ := exec_cons_ok.mp hr
    rw [Nat.add_comm k, ← Nat.add_assoc]
    exact ih (A.step h (by omega) h₁) (by omega) hr

/-- A word on the stack of `kmain`. -/
lemma At.load {w : Nat} (A : At L c₀ 20 c) (h : L.Loaded c₀) (hend : L.stackTop ≤ kernVbase + 0x400000)
    (ha : a + 4 * (k + 1) = L.stackTop) (hk : k < 4) (hw : (frame L c₀)[k]? = some w) :
    c.load a = .ok w := by
  obtain ⟨hlo, -, hlt, -⟩ := stackTop_bounds L
  have hreach : Reaches 20 a := fun _ => .inr (by omega)
  have hmem : c.mem = (ideal L c₀ 20).mem := by
    rw [← A.same]
    rfl
  have hphys : phys 20 a = L.stackTop - kernVbase - 4 * (k + 1) := by
    rw [phys, if_neg (by omega)]
    omega
  have hfour : (frame L c₀).length = 4 := rfl
  have hdeep : (frame L c₀).take (depth 20) = frame L c₀ := rfl
  have hlen : k < (frame L c₀).length := hk
  have hword : ∀ w ∈ frame L c₀, w < 4294967296 := by
    have := L.start_le
    have := L.text_le
    have := stackTop_bounds L
    intro w hw
    simp only [frame, List.mem_cons, List.not_mem_nil, or_false] at hw
    rcases hw with hw | hw | hw | hw
    · rwa [hw]
    · rw [hw]
      exact BitVec.isLt _
    · rw [hw]
      exact BitVec.isLt _
    · omega
  rw [List.getElem?_eq_getElem hlen] at hw
  rw [Cpu.load, A.translate h le_rfl hreach, ok_bind, hphys, hmem, ideal_stack h (by decide) le_rfl, hdeep,
    storeDown_read (by omega) (by omega) hlen hword, Option.some.inj hw]

/-- After `_start` the addresses from `KERN_VBASE` on are mapped, and no others. -/
lemma At.mapped (A : At L c₀ 20 c) (h : L.Loaded c₀) (ha : a < 4294967296) : c.translate a =
    if kernVbase ≤ a ∧ a < kernVbase + 0x400000 then .ok (a - kernVbase) else .error .pageFault := by
  split_ifs with hin
  · rw [A.translate h le_rfl fun _ => .inr hin, phys, if_neg (by omega)]
  · refine (A.maps h (by decide) le_rfl).translate_none ha fun p hp => ?_
    rcases mem_pages.mp hp with ⟨hfalse, -⟩ | rfl
    · exact absurd hfalse (by decide)
    · exact fun hpa => hin (hiPage_has.mp hpa)

/-- The entry and the frame are all that is stored. -/
lemma ideal_written (h : L.Loaded c₀) : SameOff (fun x =>
    Bytes (L.bootPd - kernVbase) (L.bootPd - kernVbase + 4) x ∨
      Bytes (L.stackTop - 16 - kernVbase) (L.stackTop - kernVbase) x) c₀.mem (ideal L c₀ 20).mem := by
  obtain ⟨hlo, htop, hlt, -⟩ := stackTop_bounds L
  have hfour : (frame L c₀).length = 4 := rfl
  have hdeep : (frame L c₀).take (depth 20) = frame L c₀ := rfl
  rw [ideal_stack h (by decide) le_rfl, hdeep]
  have hdir : SameOff (Bytes (L.bootPd - kernVbase) (L.bootPd - kernVbase + 4)) c₀.mem
      (writeWord c₀.mem (L.bootPd - kernVbase) 0) := .writeWord (by omega)
  have hstack : SameOff (Bytes (L.stackTop - kernVbase - 4 * (frame L c₀).length) (L.stackTop - kernVbase))
      (writeWord c₀.mem (L.bootPd - kernVbase) 0) (storeDown (writeWord c₀.mem (L.bootPd - kernVbase) 0)
        (L.stackTop - kernVbase) (frame L c₀)) := storeDown_off (by omega) (by omega)
  refine (hdir.mono fun x hx => .inl hx).trans (hstack.mono fun x hx => .inr ⟨?_, hx.2⟩)
  have := hx.1
  omega

/-- After the call the machine is in `kmain` as it should be. -/
lemma At.entered (A : At L c₀ 20 c) (h : L.Loaded c₀) (hend : L.stackTop ≤ kernVbase + 0x400000) :
    L.Entered c₀ c := by
  obtain ⟨hlo, htop, hlt, -⟩ := stackTop_bounds L
  have hkmain := L.kmain_lt
  have hjmp : (ideal L c₀ 20).eip = (BitVec.ofNat 32 L.kmain).toNat := rfl
  have hoff : (ideal L c₀ 20).iflag = false := rfl
  have hd : depth 20 = 4 := rfl
  have hif : c.iflag = (ideal L c₀ 20).iflag := by
    rw [← A.same]
    rfl
  have hreg : c.reg = (ideal L c₀ 20).reg := by
    rw [← A.same]
    rfl
  have hmem : c.mem = (ideal L c₀ 20).mem := by
    rw [← A.same]
    rfl
  constructor
  case eip =>
    rw [A.eip, hjmp, BitVec.toNat_ofNat, Nat.mod_eq_of_lt (by omega)]
  case iflag => rw [hif, hoff]
  case esp =>
    rw [hreg, ideal_esp (by decide) le_rfl, hd, BitVec.toNat_ofNat, Nat.mod_eq_of_lt (by omega)]
  case ret => exact A.load (k := 3) h hend (by omega) (by decide) rfl
  case mboot => exact A.load (k := 2) h hend (by omega) (by decide) rfl
  case mbootMag => exact A.load (k := 1) h hend (by omega) (by decide) rfl
  case stack => exact A.load (k := 0) h hend (by omega) (by decide) rfl
  case mapped => exact fun a ha => A.mapped h ha
  case mem =>
    rw [hmem]
    exact ideal_written h

end

/-- A machine as the boot loader leaves it. -/
def Layout.load (L : Layout) : Cpu where
  reg _ := 0
  cr _ := 0
  eip := L.start - kernVbase
  iflag := false
  mem a := if a = L.bootPd - kernVbase ∨ a = L.bootPd - kernVbase + 4 * 768 then 0x83 else 0
  tlb := []

/-- The memory that a loader leaves. -/
lemma Layout.load_mem (L : Layout) (a : Nat) : L.load.mem a =
    if a = L.bootPd - kernVbase ∨ a = L.bootPd - kernVbase + 4 * 768 then 0x83 else 0 := by
  rw [Layout.load]

/-- A loader leaves memory from which `_start` can run. -/
lemma Layout.loaded_load (L : Layout) : L.Loaded L.load := by
  have hoff : L.load.paging = false := BitVec.getLsbD_zero
  refine ⟨rfl, hoff, fun k hk => ?_⟩
  obtain ⟨-, htop, hlt, -⟩ := stackTop_bounds L
  have hu : ∀ j < 4, u32 (L.bootPd - kernVbase + 4 * k + j) = L.bootPd - kernVbase + 4 * k + j :=
    fun j hj => u32_eq (by omega)
  have hbyte : ∀ j, 0 < j → j < 4 → L.load.mem (L.bootPd - kernVbase + 4 * k + j) = 0 := by
    intro j h0 hj
    rw [L.load_mem, if_neg (by omega)]
  have hfirst : L.load.mem (L.bootPd - kernVbase + 4 * k) = if k = 0 ∨ k = 768 then 0x83 else 0 := by
    have hiff : (L.bootPd - kernVbase + 4 * k = L.bootPd - kernVbase ∨
        L.bootPd - kernVbase + 4 * k = L.bootPd - kernVbase + 4 * 768) ↔ k = 0 ∨ k = 768 := by omega
    rw [L.load_mem]
    simp only [hiff]
  have hword : u32 (L.bootPd - kernVbase + 4 * k) = L.bootPd - kernVbase + 4 * k := u32_eq (by omega)
  rw [readWord, hu 1 (by decide), hu 2 (by decide), hu 3 (by decide), hword,
    hbyte 1 (by decide) (by decide), hbyte 2 (by decide) (by decide), hbyte 3 (by decide) (by decide),
    hfirst]
  split_ifs <;> rfl

/-- The code of `_start` reaches `kmain`, with its frame on the stack and the higher half alone mapped,
exactly if the kernel ends its stack in the 4 MiB that `boot_pd` maps. -/
theorem boots_iff (L : Layout) : L.Boots ↔ L.stackTop ≤ kernVbase + 0x400000 := by
  constructor
  · intro h
    obtain ⟨c, h14, -⟩ := h L.load L.loaded_load (List.replicate 14 .exec) (by decide)
    obtain ⟨c', hrun, -⟩ := h L.load L.loaded_load (List.replicate 15 .exec) (by decide)
    have happ : List.replicate 15 Action.exec = List.replicate 14 .exec ++ [.exec] := rfl
    rw [happ, exec_append h14] at hrun
    obtain ⟨c'', hstep, -⟩ := exec_cons_ok.mp hrun
    exact ((at_loaded L L.load).replicate L.loaded_load (by decide) h14).step_push L.loaded_load hstep
  · intro hend c₀ h l hl
    obtain ⟨c, hrun, A⟩ := (at_loaded L c₀).exec h hend (by rwa [Nat.zero_add])
    refine ⟨c, hrun, fun hn => ?_⟩
    rw [Nat.zero_add, hn] at A
    exact A.entered h hend

end ToeS.Boot
