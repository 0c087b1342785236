import ToeS.Basic
import ToeS.Lib.Run

/-!
# The console

Model of `kern/misc/vga.c`. `vga_mem` is memory by index, and an index outside the screen is other
memory. `written` remembers the indices that were written, the last one first. The hardware cursor
(`vga_update_csr`) is left out. A `char` is signed. Strings are in other memory than the screen, and the
loop over one has `chainFuel` steps.
-/

namespace ToeS.Vga
open Lib

/-- `HEIGHT`, `WIDTH` and `BUFFER_LEN`. -/
def height : Nat := 25
@[inherit_doc height] def width : Nat := 80
@[inherit_doc height] def bufferLen : Nat := 2000

/-- The globals; `attr` is `attribute`. -/
structure State where
  cursor : Int
  vgaMem : Int → BitVec 16
  attr : BitVec 16
  written : List Int

/-- A store to `vga_mem[i]`. -/
def State.put (s : State) (i : Int) (v : BitVec 16) : State :=
  { s with vgaMem := Function.update s.vgaMem i v, written := i :: s.written }

/-- C `vga_scroll`. -/
def vgaScroll (s : State) : State :=
  let s := (List.range (width * (height - 1))).foldl
    (fun s i => s.put i (s.vgaMem ((i : Int) + width))) s
  let s := (List.range width).foldl
    (fun s i => s.put ((width * (height - 1) : Nat) + (i : Int)) s.attr) s
  { s with cursor := (width * (height - 1) : Nat) }

/-- `c | attribute` as a `uint16_t`. -/
def cell (attr : BitVec 16) (c : UInt8) : BitVec 16 := c.toBitVec.signExtend 16 ||| attr

/-- C `vga_write_char`. -/
def vgaWriteChar (s : State) (c : UInt8) : State :=
  let s := if s.cursor = bufferLen then vgaScroll s else s
  if c = 10 then { s with cursor := s.cursor + 80 - s.cursor.tmod 80 }
  else if c = 8 then
    let s := { s with cursor := s.cursor - 1 }
    s.put s.cursor (cell s.attr 32)
  else
    let s := s.put s.cursor (cell s.attr c)
    { s with cursor := s.cursor + 1 }

/-- The loop of `vga_write` from the index `i` on, for the string at `str`. -/
def vgaWriteLoop (m : Mem) (str : Nat) : Nat → Nat → State → Except Fault State
  | 0, _, _ => .error .diverges
  | n + 1, i, s =>
    let c := m (u32 (str + i))
    if c ≠ 0 then vgaWriteLoop m str n (i + 1) (vgaWriteChar s c) else .ok s

/-- C `vga_write`. -/
def vgaWrite (m : Mem) (str : Nat) (s : State) : Except Fault State :=
  vgaWriteLoop m str chainFuel 0 s

/-- C `vga_clear`. -/
def vgaClear (s : State) : State :=
  let s := (List.range (width * height)).foldl (fun s _ => vgaWriteChar s 32) s
  { s with cursor := 0 }

/-- What `vga_set_color` makes of two colours. -/
def colors (fore back : UInt8) : BitVec 16 :=
  (back.toBitVec.setWidth 16 <<< 4 ||| fore.toBitVec.setWidth 16 &&& 0x0F) <<< 8

/-- C `vga_set_color`. -/
def vgaSetColor (fore back : UInt8) (s : State) : State := { s with attr := colors fore back }

/-- `WHITE` and `BLACK`. -/
def white : UInt8 := 0xF
@[inherit_doc white] def black : UInt8 := 0

/-- C `vga_init`. -/
def vgaInit (s : State) : State := vgaClear (vgaSetColor white black s)

/-- The state before `vga_init`: the globals are zero, and the screen holds anything. -/
def boot (vgaMem : Int → BitVec 16) : State := ⟨0, vgaMem, 0, []⟩

/-- The string of the characters `l` is at `str`. -/
structure IsStr (m : Mem) (str : Nat) (l : List UInt8) : Prop where
  chars : ∀ i, (h : i < l.length) → m (u32 (str + i)) = l[i] ∧ l[i] ≠ 0
  nul : m (u32 (str + l.length)) = 0

/-! ## What the loops do -/

section
variable {s : State} {m : Mem} {str : Nat} {c : UInt8} {l : List UInt8} {i j : Int} {v : BitVec 16}

/-- Writing a cell leaves the cursor. -/
@[simp] lemma put_cursor : (s.put i v).cursor = s.cursor := rfl

/-- Writing a cell leaves the attribute. -/
@[simp] lemma put_attribute : (s.put i v).attr = s.attr := rfl

/-- A cell that is written is noted. -/
@[simp] lemma put_written : (s.put i v).written = i :: s.written := rfl

/-- A colour leaves the cursor. -/
@[simp] lemma vgaSetColor_cursor {f b : UInt8} : (vgaSetColor f b s).cursor = s.cursor := rfl

/-- A colour leaves the cells. -/
@[simp] lemma vgaSetColor_vgaMem {f b : UInt8} : (vgaSetColor f b s).vgaMem = s.vgaMem := rfl

/-- What the cells hold after one is written. -/
lemma put_vgaMem : (s.put i v).vgaMem j = if j = i then v else s.vgaMem j := by
  simp [State.put, Function.update_apply]

/-- The first loop of `vga_scroll` moves the rows up. -/
lemma scroll_move (s : State) {n : Nat} : ∃ s', (List.range n).foldl
    (fun s (i : Nat) => s.put i (s.vgaMem ((i : Int) + width))) s = s' ∧
    s'.cursor = s.cursor ∧ s'.attr = s.attr ∧
    (∀ i ∈ s'.written, i ∈ s.written ∨ 0 ≤ i ∧ i < n) ∧
    ∀ j, s'.vgaMem j = if 0 ≤ j ∧ j < n then s.vgaMem (j + width) else s.vgaMem j := by
  induction n with
  | zero =>
    refine ⟨s, rfl, rfl, rfl, fun i hi => .inl hi, fun j => ?_⟩
    rw [if_neg (by omega)]
  | succ n ih =>
    obtain ⟨s₁, h₁, hc, ha, hw, hm⟩ := ih
    refine ⟨s₁.put n (s₁.vgaMem ((n : Int) + width)),
      by rw [List.range_succ, List.foldl_append, h₁]; rfl, hc, ha, fun i hi => ?_, fun j => ?_⟩
    · rcases List.mem_cons.mp hi with rfl | hi
      · exact .inr (by omega)
      · exact (hw i hi).imp_right (by omega)
    · rw [put_vgaMem, hm, hm]
      by_cases hj : j = n
      · have hout : ¬ (0 ≤ (n : Int) + width ∧ (n : Int) + width < n) := by unfold width; omega
        rw [if_pos hj, hj, if_neg hout, if_pos (by omega)]
      · rw [if_neg hj]
        exact if_congr (by omega) rfl rfl

/-- The second loop blanks the last row. -/
lemma scroll_blank (s : State) (b : Nat) {n : Nat} : ∃ s', (List.range n).foldl
    (fun s (i : Nat) => s.put ((b : Int) + i) s.attr) s = s' ∧
    s'.cursor = s.cursor ∧ s'.attr = s.attr ∧
    (∀ i ∈ s'.written, i ∈ s.written ∨ (b : Int) ≤ i ∧ i < b + n) ∧
    ∀ j, s'.vgaMem j = if (b : Int) ≤ j ∧ j < b + n then s.attr else s.vgaMem j := by
  induction n with
  | zero =>
    refine ⟨s, rfl, rfl, rfl, fun i hi => .inl hi, fun j => ?_⟩
    rw [if_neg (by omega)]
  | succ n ih =>
    obtain ⟨s₁, h₁, hc, ha, hw, hm⟩ := ih
    refine ⟨s₁.put ((b : Int) + n) s₁.attr,
      by rw [List.range_succ, List.foldl_append, h₁]; rfl, hc, ha, fun i hi => ?_, fun j => ?_⟩
    · rcases List.mem_cons.mp hi with rfl | hi
      · exact .inr (by omega)
      · exact (hw i hi).imp_right (by omega)
    · rw [put_vgaMem, hm, ha]
      by_cases hj : j = b + n
      · rw [if_pos hj, if_pos (by omega)]
      · rw [if_neg hj]
        exact if_congr (by omega) rfl rfl

/-- What `vga_scroll` does. -/
lemma vgaScroll_spec (s : State) : (vgaScroll s).cursor = 1920 ∧
    (vgaScroll s).attr = s.attr ∧
    (∀ i ∈ (vgaScroll s).written, i ∈ s.written ∨ 0 ≤ i ∧ i < 2000) ∧
    (∀ j, 0 ≤ j → j < 1920 → (vgaScroll s).vgaMem j = s.vgaMem (j + 80)) ∧
    ∀ j, 1920 ≤ j → j < 2000 → (vgaScroll s).vgaMem j = s.attr := by
  obtain ⟨s₁, h₁, -, ha₁, hw₁, hm₁⟩ := scroll_move s (n := width * (height - 1))
  obtain ⟨s₂, h₂, -, ha₂, hw₂, hm₂⟩ := scroll_blank s₁ (width * (height - 1)) (n := width)
  have hrun : vgaScroll s = { s₂ with cursor := (width * (height - 1) : Nat) } := by
    rw [← h₂, ← h₁]
    rfl
  have hlen : ((width * (height - 1) : Nat) : Int) = 1920 := rfl
  have hwid : (width : Int) = 80 := rfl
  rw [hlen] at hw₁ hm₁ hw₂ hm₂
  rw [hwid] at hm₁ hw₂ hm₂
  rw [hrun]
  refine ⟨rfl, ha₂.trans ha₁, fun i hi => ?_, fun j hj hj' => ?_, fun j hj hj' => ?_⟩
  · rcases hw₂ i hi with hi | hi
    · exact (hw₁ i hi).imp_right (by omega)
    · exact .inr (by omega)
  · show s₂.vgaMem j = _
    rw [hm₂, if_neg (by omega), hm₁, if_pos ⟨hj, hj'⟩]
  · show s₂.vgaMem j = _
    rw [hm₂, if_pos (by omega), ha₁]

/-- A string ends before it comes around to its beginning. -/
lemma IsStr.length_lt (hs : IsStr m str l) : l.length < chainFuel := by
  have hfuel : chainFuel = 4294967296 := rfl
  by_contra hl
  obtain ⟨hc, hne⟩ := hs.chars (l.length - 4294967296) (by omega)
  have hwrap : u32 (str + (l.length - 4294967296)) = u32 (str + l.length) := by
    unfold u32
    omega
  rw [hwrap, hs.nul] at hc
  exact hne hc.symm

/-- `vga_write` writes the characters of its string, one after the other. -/
lemma vgaWrite_spec (hs : IsStr m str l) (s : State) :
    vgaWrite m str s = .ok (l.foldl vgaWriteChar s) := by
  have hloop : ∀ n i, i ≤ l.length → l.length < i + n → ∀ s,
      vgaWriteLoop m str n i s = .ok ((l.drop i).foldl vgaWriteChar s) := by
    intro n
    induction n with
    | zero => intro i hi hn; omega
    | succ n ih =>
      intro i hi hn s
      rw [vgaWriteLoop]
      by_cases hlt : i < l.length
      · obtain ⟨hc, hne⟩ := hs.chars i hlt
        simp only [hc]
        rw [if_pos hne, ih (i + 1) hlt (by omega), List.drop_eq_getElem_cons hlt]
        rfl
      · obtain rfl : i = l.length := by omega
        simp only [hs.nul]
        rw [if_neg (not_not.mpr rfl), List.drop_length]
        rfl
  have h := hloop chainFuel 0 (Nat.zero_le _) (by have := hs.length_lt; omega) s
  rwa [List.drop_zero] at h

end

end ToeS.Vga
