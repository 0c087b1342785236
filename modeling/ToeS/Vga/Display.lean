import ToeS.Vga.Console

/-!
# The display

The consoles of both kernels, `kern/misc/vga.c` and `v1/os/vga.c`, with the colours, the backspaces and
the cursor of the CRT controller. They differ in `vga_clear`: the one writes spaces, the other stores
them. A `Sheet` is what a console is for. Whatever is called, the screen is a window on the sheet and
the cursor blinks at its position.
-/

namespace ToeS.Vga
open Lib

/-! ## The CRT controller -/

/-- The registers, and the one that is selected. -/
structure Crtc where
  index : UInt8
  reg : UInt8 → UInt8

/-- A byte at a port. -/
def Crtc.out (r : Crtc) (port : Nat) (v : UInt8) : Crtc :=
  if port = 0x3D4 then { r with index := v }
  else if port = 0x3D5 then { r with reg := Function.update r.reg r.index v }
  else r

/-- Where the cursor blinks: the registers 14 and 15. -/
def Crtc.place (r : Crtc) : Nat := 256 * (r.reg 14).toNat + (r.reg 15).toNat

/-- C `vga_update_csr`. `outport` takes a byte. -/
def vgaUpdateCsr (cursor : Int) (r : Crtc) : Crtc :=
  let r := r.out 0x3D4 14
  let r := r.out 0x3D5 (.ofInt (cursor >>> (8 : Nat)))
  let r := r.out 0x3D4 15
  r.out 0x3D5 (.ofInt cursor)

/-! ## The calls -/

/-- The console and the controller. -/
structure Display where
  con : State
  crtc : Crtc

def Display.updateCsr (d : Display) : Display := { d with crtc := vgaUpdateCsr d.con.cursor d.crtc }

/-- C `vga_write_char`, and one round of `vga_write` in `v1`. -/
def Display.writeChar (d : Display) (c : UInt8) : Display :=
  Display.updateCsr { d with con := vgaWriteChar d.con c }

/-- C `vga_set_color`, and `set_color` in `v1`. -/
def Display.setColor (fore back : UInt8) (d : Display) : Display :=
  { d with con := vgaSetColor fore back d.con }

inductive Kernel where
  | kern
  | v1
  deriving DecidableEq

/-- C `vga_clear`. -/
def Display.clear : Kernel → Display → Display
  | .kern, d =>
    let d := (List.range (width * height)).foldl (fun d _ => d.writeChar 32) d
    Display.updateCsr { d with con := { d.con with cursor := 0 } }
  | .v1, d =>
    let con := (List.range (width * height)).foldl
      (fun s (i : Nat) => s.put i (cell s.attr 32)) d.con
    Display.updateCsr { d with con := { con with cursor := 0 } }

/-- C `vga_init`, and `init_vga` in `v1`. The controller may be in any state. -/
def Display.init (kernel : Kernel) (vgaMem : Int → BitVec 16) (crtc : Crtc) : Display :=
  .clear kernel (.setColor white black ⟨boot vgaMem, crtc⟩)

inductive Call where
  | writeChar (c : UInt8)
  | setColor (fore back : UInt8)
  | clear
  deriving DecidableEq

def Display.step (kernel : Kernel) (d : Display) : Call → Except Fault Display
  | .writeChar c => .ok (d.writeChar c)
  | .setColor fore back => .ok (d.setColor fore back)
  | .clear => .ok (d.clear kernel)

/-- No backspace at the beginning of the screen. -/
def Call.Legal (d : Display) (c : Call) : Prop := ¬ (c = .writeChar 8 ∧ d.con.cursor = 0)

instance (d : Display) (c : Call) : Decidable (c.Legal d) := by unfold Call.Legal; infer_instance

/-! ## The sheet -/

/-- A terminal without end, and the colours of what comes next. -/
structure Sheet where
  text : Terminal (BitVec 16)
  attr : BitVec 16

def Sheet.writeChar (t : Sheet) (c : UInt8) : Sheet :=
  { t with text :=
      if c = 10 then t.text.newline width
      else if c = 8 then t.text.back (cell t.attr 32)
      else t.text.put (cell t.attr c) }

def Sheet.step (t : Sheet) : Call → Sheet
  | .writeChar c => t.writeChar c
  | .setColor fore back => { t with attr := colors fore back }
  | .clear => { t with text := .start 0 }

/-- The sheet at the beginning. -/
def Sheet.init : Sheet := ⟨.start 0, colors white black⟩

/-- A cell in which nothing is seen: the character is 0 or a space. -/
def Blank (v : BitVec 16) : Prop := v.setWidth 8 = 0#8 ∨ v.setWidth 8 = 32#8

/-- The display shows the sheet from row `k` on, in the colours it was written in. Cells that were not
written are blank. -/
structure Shown (d : Display) (t : Sheet) (base : Nat → BitVec 16) (k : Nat) : Prop where
  attr : d.con.attr = t.attr
  nonneg : 0 ≤ d.con.cursor
  window : Terminal.Window width height base id d.con.cells d.con.cursor.toNat t.text k
  blank : ∀ j, Blank (base j)
  place : d.crtc.place = d.con.cursor

section
variable {d : Display} {t : Sheet} {base : Nat → BitVec 16} {k : Nat} {kernel : Kernel} {c : UInt8}
  {s : State} {cursor : Int} {r : Crtc} {attr : BitVec 16}

/-! ## Lemmas for the parts -/

/-- The two bytes make up the cursor. -/
lemma vgaUpdateCsr_place (h0 : 0 ≤ cursor) (hle : cursor ≤ bufferLen) :
    (vgaUpdateCsr cursor r).place = cursor := by
  have hlen : (bufferLen : Int) = 2000 := rfl
  have hhi : (vgaUpdateCsr cursor r).reg 14 = .ofInt (cursor >>> (8 : Nat)) := rfl
  have hlo : (vgaUpdateCsr cursor r).reg 15 = .ofInt cursor := rfl
  rw [Crtc.place, hhi, hlo]
  have hshift : cursor >>> (8 : Nat) = cursor / 256 := Int.shiftRight_eq_div_pow ..
  have hbyte : ∀ x : Int, ((UInt8.ofInt x).toNat : Int) = x % 256 := by
    intro x
    show (((x % 256).toNat % 256 : Nat) : Int) = _
    omega
  push_cast
  rw [hbyte, hbyte, hshift]
  omega

/-- Colours have no character. -/
lemma colors_plain {fore back : UInt8} : (colors fore back).setWidth 8 = 0#8 := by
  ext i hi
  simp [colors]

/-- The colours are all in the high byte. -/
lemma setWidth_cell (hp : attr.setWidth 8 = 0#8) : (cell attr c).setWidth 8 = c.toBitVec := by
  rw [cell, BitVec.setWidth_or, hp, BitVec.or_zero]
  ext i hi
  rw [BitVec.getElem_setWidth, BitVec.getLsbD_signExtend, if_pos hi, decide_eq_true (by omega),
    Bool.true_and, BitVec.getLsbD_eq_getElem hi]

/-- `vga_clear` writes through `vga_write_char`, which moves the blinking cursor as well. -/
lemma clear_con (n : Nat) : ((List.range n).foldl (fun d _ => d.writeChar 32) d).con =
    (List.range n).foldl (fun s _ => vgaWriteChar s 32) d.con :=
  (List.foldl_hom Display.con fun _ _ => rfl).symm

/-- Scrolling leaves the attribute. -/
lemma scrolled_attr : (scrolled s).attr = s.attr := by
  unfold scrolled
  split
  · exact (vgaScroll_spec s).2.1
  · rfl

/-- What `vga_write_char` does after the check for a full screen. -/
lemma vgaWriteChar_eq : vgaWriteChar s c =
    if c = 10 then { scrolled s with cursor := (scrolled s).cursor + 80 - (scrolled s).cursor.tmod 80 }
    else if c = 8 then State.put { scrolled s with cursor := (scrolled s).cursor - 1 }
      ((scrolled s).cursor - 1) (cell (scrolled s).attr 32)
    else { (scrolled s).put (scrolled s).cursor (cell (scrolled s).attr c) with
      cursor := (scrolled s).cursor + 1 } := rfl

/-- A character leaves the attribute. -/
lemma vgaWriteChar_attr : (vgaWriteChar s c).attr = s.attr := by
  rw [vgaWriteChar_eq, ← scrolled_attr (s := s)]
  split
  · rfl
  · split <;> rfl

/-- A text leaves the attribute. -/
lemma foldl_attr (l : List UInt8) : (l.foldl vgaWriteChar s).attr = s.attr := by
  induction l generalizing s with
  | nil => rfl
  | cons c l ih => exact ih.trans vgaWriteChar_attr

/-- Another cursor leaves the attribute. -/
lemma home_attr : ({ s with cursor := 0 } : State).attr = s.attr := rfl

/-- `vga_clear` leaves the attribute. -/
lemma vgaClear_attr : (vgaClear s).attr = s.attr := by rw [vgaClear_eq, home_attr, foldl_attr]

/-- The loop of `vga_clear` in `v1`. -/
lemma fill_spec (s : State) (n : Nat) : ∃ s', (List.range n).foldl
    (fun s (i : Nat) => s.put i (cell s.attr 32)) s = s' ∧ s'.attr = s.attr ∧
    ∀ j : Nat, j < n → s'.vgaMem j = cell s.attr 32 := by
  induction n with
  | zero => exact ⟨s, rfl, rfl, nofun⟩
  | succ n ih =>
    obtain ⟨u, hu, ha, hm⟩ := ih
    refine ⟨u.put n (cell u.attr 32), by rw [List.range_succ, List.foldl_append, hu]; rfl, ha,
      fun j hj => ?_⟩
    rw [put_vgaMem, ha]
    by_cases hjn : (j : Int) = n
    · rw [if_pos hjn]
    · rw [if_neg hjn, hm j (by omega)]

/-! ## One call -/

/-- Any screen shows the empty sheet once it is blank. -/
lemma shown_blank (hattr : d.con.attr = t.attr) (hcur : d.con.cursor = 0)
    (hplace : d.crtc.place = d.con.cursor) (htext : t.text = .start 0)
    (hcells : ∀ i : Nat, i < 2000 → Blank (d.con.vgaMem i)) : ∃ base, Shown d t base 0 := by
  refine ⟨fun i => if i < 2000 then d.con.cells i else 0, hattr, hcur.ge, ?_, fun i => ?_, hplace⟩
  · rw [htext, hcur]
    exact .start (Nat.zero_le _) fun i hi => (if_pos hi).symm
  · show Blank (if i < 2000 then d.con.cells i else 0)
    split
    · exact hcells i ‹_›
    · exact .inl rfl

/-- Both kernels clear the screen. -/
lemma clear_shown (h0 : 0 ≤ d.con.cursor) (hle : d.con.cursor ≤ bufferLen)
    (hp : d.con.attr.setWidth 8 = 0#8) :
    ∃ base, Shown (d.clear kernel) ⟨.start 0, d.con.attr⟩ base 0 := by
  have hspace : Blank (cell d.con.attr 32) := .inr (setWidth_cell hp)
  have hplace : ∀ r, (vgaUpdateCsr 0 r).place = (0 : Int) := fun r =>
    vgaUpdateCsr_place le_rfl (Int.natCast_nonneg _)
  cases kernel with
  | kern =>
    obtain ⟨k, -, hcell⟩ := clear_refines h0 hle
    have hcon : (d.clear .kern).con = vgaClear d.con := by
      show ({ (List.foldl _ _ _ : Display).con with cursor := 0 } : State) = _
      rw [clear_con]
      rfl
    have hcur := vgaClear_cursor d.con
    refine shown_blank ?_ ?_ ?_ rfl fun i hi => ?_
    · rw [hcon]
      exact vgaClear_attr
    · rw [hcon, hcur]
    · rw [hcon, hcur]
      exact hplace _
    · rw [hcon, hcell i hi]
      split
      · exact hspace
      · exact .inl hp
  | v1 =>
    obtain ⟨u, hu, ha, hm⟩ := fill_spec d.con (width * height)
    have hrun : d.clear .v1 = Display.updateCsr { d with con := { u with cursor := 0 } } := by
      rw [← hu]
      rfl
    rw [hrun]
    refine shown_blank ha rfl (hplace _) rfl fun i hi => ?_
    show Blank (u.vgaMem i)
    rw [hm i hi]
    exact hspace

/-- The check for a full screen: the sheet stays, the window moves down. -/
lemma Shown.scrolled (S : Shown d t base k) (hp : t.attr.setWidth 8 = 0#8) :
    ∃ base' k', (∀ j, Blank (base' j)) ∧ 0 ≤ (scrolled d.con).cursor ∧
      (scrolled d.con).cursor < 2000 ∧ ((scrolled d.con).cursor = 0 ↔ d.con.cursor = 0) ∧
      Terminal.Window width height base' id (scrolled d.con).cells (scrolled d.con).cursor.toNat
        t.text k' := by
  have hsize : width * height = 2000 := rfl
  have hin := S.window.inside
  have h0 := S.nonneg
  by_cases hfull : d.con.cursor = 2000
  · obtain ⟨hcur, -, -, hmove, hblank⟩ := vgaScroll_spec d.con
    have W : Terminal.Window width height base id d.con.cells (width * height) t.text k := by
      have hW := S.window
      rwa [show d.con.cursor.toNat = width * height by rw [hfull]; rfl] at hW
    have hrow : width * (height - 1) = 1920 := rfl
    have hnext : width * (k + 1) = width * k + 80 := rfl
    rw [show Vga.scrolled d.con = vgaScroll d.con from if_pos hfull, hcur]
    refine ⟨fun j => if j < width * k + width * height then base j else d.con.attr, k + 1,
      fun j => ?_, by omega, by omega, by omega,
      W.scroll (by decide) (fun j hj => if_pos hj) (fun i hi => ?_) fun i hi hi' => ?_⟩
    · show Blank (if _ then _ else _)
      split
      · exact S.blank j
      · exact .inl (by rw [S.attr, hp])
    · exact hmove i (by omega) (by omega)
    · rw [if_neg (by omega)]
      exact hblank i (by omega) (by omega)
  · rw [show Vga.scrolled d.con = d.con from if_neg hfull]
    exact ⟨base, k, S.blank, h0, by omega, Iff.rfl, S.window⟩

/-- A character on both. -/
lemma Shown.writeChar (S : Shown d t base k) (hp : t.attr.setWidth 8 = 0#8)
    (hc : ¬ (c = 8 ∧ d.con.cursor = 0)) :
    ∃ base' k', Shown (d.writeChar c) (t.writeChar c) base' k' := by
  have hsize : width * height = 2000 := rfl
  obtain ⟨base', k', hblank, h0, hlt, hzero, W⟩ := S.scrolled hp
  rw [← hzero] at hc
  have hcon : (d.writeChar c).con = vgaWriteChar d.con c := rfl
  have hattr : (Vga.scrolled d.con).attr = t.attr := scrolled_attr.trans S.attr
  suffices h : 0 ≤ (vgaWriteChar d.con c).cursor ∧ Terminal.Window width height base' id
      (vgaWriteChar d.con c).cells (vgaWriteChar d.con c).cursor.toNat (t.writeChar c).text k' by
    obtain ⟨h0', W'⟩ := h
    have hin := W'.inside
    refine ⟨base', k', ?_, h0', W', hblank, vgaUpdateCsr_place h0' ?_⟩
    · exact vgaWriteChar_attr.trans S.attr
    · show (vgaWriteChar d.con c).cursor ≤ 2000
      omega
  rw [vgaWriteChar_eq, Sheet.writeChar]
  obtain ⟨u, hu⟩ : ∃ u, u = Vga.scrolled d.con := ⟨_, rfl⟩
  rw [← hu] at h0 hlt hc W hattr ⊢
  by_cases hnl : c = 10
  · have hmod := Int.tmod_eq_emod_of_nonneg h0 (b := 80)
    have hcur : (u.cursor + 80 - u.cursor.tmod 80).toNat =
        u.cursor.toNat + width - u.cursor.toNat % width := by
      show _ = u.cursor.toNat + 80 - u.cursor.toNat % 80
      omega
    rw [if_pos hnl, if_pos hnl]
    refine ⟨by show 0 ≤ u.cursor + 80 - _; omega, ?_⟩
    show Terminal.Window _ _ _ _ u.cells (u.cursor + 80 - u.cursor.tmod 80).toNat _ _
    rw [hcur]
    exact W.newline (by omega)
  · rw [if_neg hnl, if_neg hnl]
    by_cases hbs : c = 8
    · have hpos : u.cursor ≠ 0 := fun he => hc ⟨hbs, he⟩
      have hcur : (u.cursor - 1).toNat = u.cursor.toNat - 1 := by omega
      rw [if_pos hbs, if_pos hbs]
      refine ⟨by show 0 ≤ u.cursor - 1; omega, ?_⟩
      show Terminal.Window _ _ _ _ (u.put (u.cursor - 1) (cell u.attr 32)).cells
        (u.cursor - 1).toNat _ _
      rw [hcur]
      refine W.back (by omega) ?_ fun i hi hne => ?_
      · rw [State.cells, put_vgaMem, if_pos (by omega), hattr]
        rfl
      · rw [State.cells, put_vgaMem, if_neg (by omega)]
        rfl
    · have hcur : (u.cursor + 1).toNat = u.cursor.toNat + 1 := by omega
      rw [if_neg hbs, if_neg hbs]
      refine ⟨by show 0 ≤ u.cursor + 1; omega, ?_⟩
      show Terminal.Window _ _ _ _ (u.put u.cursor (cell u.attr c)).cells (u.cursor + 1).toNat _ _
      rw [hcur]
      refine W.put (by omega) ?_ fun i hi hne => ?_
      · rw [State.cells, put_vgaMem, if_pos (by omega), hattr]
        rfl
      · rw [State.cells, put_vgaMem, if_neg (by omega)]
        rfl

/-- The display and the sheet after the same calls. -/
def Shows (d : Display) (t : Sheet) : Prop :=
  t.attr.setWidth 8 = 0#8 ∧ ∃ base k, Shown d t base k

/-- After `vga_init` the screen shows nothing. -/
lemma shows_init (vgaMem : Int → BitVec 16) : Shows (.init kernel vgaMem r) .init := by
  have hclear : ∃ base, Shown (.init kernel vgaMem r) .init base 0 :=
    clear_shown (d := .setColor white black ⟨boot vgaMem, r⟩) le_rfl (Int.natCast_nonneg _) colors_plain
  obtain ⟨base, S⟩ := hclear
  exact ⟨colors_plain, base, 0, S⟩

/-- Every legal call leads from a display that shows a sheet to one that does. -/
lemma Shows.step (h : Shows d t) {i : Call} (hi : i.Legal d) :
    ∃ d', d.step kernel i = .ok d' ∧ Shows d' (t.step i) := by
  obtain ⟨hp, base, k, S⟩ := h
  cases i with
  | writeChar c =>
    obtain ⟨base', k', S'⟩ := S.writeChar (c := c) hp fun hc => hi ⟨by rw [hc.1], hc.2⟩
    exact ⟨_, rfl, hp, base', k', S'⟩
  | setColor fore back =>
    exact ⟨_, rfl, colors_plain, base, k, rfl, S.nonneg, S.window, S.blank, S.place⟩
  | clear =>
    have hin := S.window.inside
    have h0 := S.nonneg
    have hle : d.con.cursor ≤ bufferLen := by
      have hsize : width * height = 2000 := rfl
      show _ ≤ (2000 : Int)
      omega
    have hclear : ∃ base, Shown (d.clear kernel) ⟨.start 0, d.con.attr⟩ base 0 :=
      clear_shown h0 hle (by rw [S.attr, hp])
    obtain ⟨base', S'⟩ := hclear
    rw [S.attr] at S'
    exact ⟨_, rfl, hp, base', 0, S'⟩

/-- However the display is written to, coloured, cleared and rubbed out, in either kernel: it shows
contiguous rows of the sheet, with the characters and colours it has there, nothing in the other cells,
and the cursor blinks where the next character goes. -/
theorem display_shows (kernel : Kernel) (vgaMem : Int → BitVec 16) (r : Crtc) (l : List Call)
    (hl : LegalRun (Display.step kernel) (fun d i => i.Legal d) (.init kernel vgaMem r) l) :
    ∃ d base k, exec (Display.step kernel) (.init kernel vgaMem r) l = .ok d ∧
      Shown d (l.foldl Sheet.step .init) base k := by
  have hrun : ∀ l d t, Shows d t → LegalRun (Display.step kernel) (fun d i => i.Legal d) d l →
      ∃ d', exec (Display.step kernel) d l = .ok d' ∧ Shows d' (l.foldl Sheet.step t) := by
    intro l
    induction l with
    | nil => exact fun d t h _ => ⟨d, rfl, h⟩
    | cons i l ih =>
      intro d t h hl
      have hstep : ∃ d', d.step kernel i = .ok d' ∧ Shows d' (t.step i) := h.step hl.1
      obtain ⟨d', hd, h'⟩ := hstep
      rw [exec_cons hd]
      exact ih d' _ h' (hl.2 d' hd)
  obtain ⟨d, hd, -, base, k, S⟩ := hrun l _ _ (shows_init vgaMem) hl
  exact ⟨d, base, k, hd, S⟩

/-- A line, and a character in another colour that is rubbed out. -/
theorem display_shows_word : ∃ d base k, exec (Display.step .v1) (.init .v1 (fun _ => 0) ⟨0, fun _ => 0⟩)
      [.writeChar 72, .writeChar 10, .setColor 3 0, .writeChar 105, .writeChar 8] = .ok d ∧
    Shown d ([.writeChar 72, .writeChar 10, .setColor 3 0, .writeChar 105, .writeChar 8].foldl
      Sheet.step .init) base k :=
  display_shows .v1 _ _ _ (by decide)

end

end ToeS.Vga
