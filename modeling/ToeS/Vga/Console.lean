import ToeS.Lib.Terminal
import ToeS.Vga.Defs

/-!
# The console as a terminal

`vga_write_char` scrolls when the screen is full and the next character comes. `InScreen` is what keeps
it inside the screen: the upper end is checked, the lower one is not. For text without backspaces the
console shows the last rows of a terminal that has no end, from which both the scrolling of long output
and what `vga_clear` leaves on the screen follow.
-/

namespace ToeS.Vga
open Lib

/-- The cursor is in the screen or right behind it, and so was every store. -/
structure InScreen (s : State) : Prop where
  nonneg : 0 ≤ s.cursor
  le : s.cursor ≤ bufferLen
  written : ∀ i ∈ s.written, 0 ≤ i ∧ i < bufferLen

/-- C `vga_write_char` as a call. -/
def writeChar (s : State) (c : UInt8) : Except Fault State := .ok (vgaWriteChar s c)

section
variable {s : State} {c : UInt8} {l : List UInt8}

/-! ## Inside the screen -/

/-- The state after the check for a full screen. -/
def scrolled (s : State) : State := if s.cursor = bufferLen then vgaScroll s else s

/-- Scrolling leads to a cursor before the end. -/
lemma InScreen.scrolled (h : InScreen s) : InScreen (scrolled s) ∧ (scrolled s).cursor < bufferLen ∧
    ((Vga.scrolled s).cursor = 0 ↔ s.cursor = 0) := by
  have hlen : (bufferLen : Int) = 2000 := rfl
  obtain ⟨h0, hle, hw⟩ := h
  unfold Vga.scrolled
  split
  · rename_i hc
    obtain ⟨hcur, -, hw', -, -⟩ := vgaScroll_spec s
    rw [hcur]
    exact ⟨⟨by omega, by omega, fun i hi => (hw' i hi).elim (hw i) (by omega)⟩, by omega, by omega⟩
  · exact ⟨⟨h0, hle, hw⟩, by omega, Iff.rfl⟩

/-- A character leads out of the screen exactly when it is a backspace at the beginning. -/
lemma inScreen_writeChar (h : InScreen s) :
    InScreen (vgaWriteChar s c) ↔ ¬ (c = 8 ∧ s.cursor = 0) := by
  have hlen : (bufferLen : Int) = 2000 := rfl
  obtain ⟨⟨h0, hle, hw⟩, hlt, hzero⟩ := h.scrolled
  have hrun : vgaWriteChar s c =
      if c = 10 then { scrolled s with cursor := (scrolled s).cursor + 80 - (scrolled s).cursor.tmod 80 }
      else if c = 8 then State.put { scrolled s with cursor := (scrolled s).cursor - 1 }
        ((scrolled s).cursor - 1) (cell (scrolled s).attr 32)
      else { (scrolled s).put (scrolled s).cursor (cell (scrolled s).attr c) with
        cursor := (scrolled s).cursor + 1 } := rfl
  rw [← hzero, hrun]
  obtain ⟨t, ht⟩ : ∃ t, t = scrolled s := ⟨_, rfl⟩
  rw [← ht] at h0 hle hw hlt ⊢
  by_cases hnl : c = 10
  · have hne : c ≠ 8 := by
      rw [hnl]
      decide
    have hmod := Int.tmod_eq_emod_of_nonneg h0 (b := 80)
    rw [if_pos hnl, iff_true_right fun h => hne h.1]
    exact ⟨by show 0 ≤ t.cursor + 80 - _; omega, by show t.cursor + 80 - _ ≤ _; omega, hw⟩
  · rw [if_neg hnl]
    by_cases hbs : c = 8
    · rw [if_pos hbs]
      constructor
      · rintro ⟨h0', -, -⟩ ⟨-, he⟩
        have h0' : 0 ≤ t.cursor - 1 := h0'
        omega
      · intro he
        have hpos : t.cursor ≠ 0 := fun e => he ⟨hbs, e⟩
        refine ⟨by show 0 ≤ t.cursor - 1; omega, by show t.cursor - 1 ≤ _; omega, fun i hi => ?_⟩
        rcases List.mem_cons.mp hi with rfl | hi
        · omega
        · exact hw i hi
    · rw [if_neg hbs, iff_true_right fun h => hbs h.1]
      refine ⟨by show 0 ≤ t.cursor + 1; omega, by show t.cursor + 1 ≤ _; omega, fun i hi => ?_⟩
      rcases List.mem_cons.mp hi with rfl | hi
      · omega
      · exact hw i hi

/-- The loop of `vga_clear` writes spaces. -/
lemma clear_loop (n : Nat) : (List.range n).foldl (fun s _ => vgaWriteChar s 32) s =
    (List.replicate n 32).foldl vgaWriteChar s := by
  induction n with
  | zero => rfl
  | succ n ih =>
    rw [List.range_succ, List.foldl_append, ih, List.replicate_succ', List.foldl_append]
    rfl

/-- A cleared screen is one full of blanks. -/
lemma vgaClear_eq (s : State) : vgaClear s =
    { (List.replicate (width * height) 32).foldl vgaWriteChar s with cursor := 0 } := by
  rw [vgaClear, clear_loop]

/-- A cleared screen has the cursor at its beginning. -/
lemma vgaClear_cursor (s : State) : (vgaClear s).cursor = 0 := by rw [vgaClear_eq]

/-- A cleared screen has the cells of the blanks. -/
lemma vgaClear_vgaMem (s : State) : (vgaClear s).vgaMem =
    ((List.replicate (width * height) 32).foldl vgaWriteChar s).vgaMem := by rw [vgaClear_eq]

/-- Clearing stays on the screen. -/
lemma InScreen.clear (h : InScreen s) : InScreen (vgaClear s) := by
  have hspaces : ∀ n, InScreen ((List.replicate n 32).foldl vgaWriteChar s) := by
    intro n
    induction n with
    | zero => exact h
    | succ n ih =>
      have hstep : InScreen (vgaWriteChar ((List.replicate n 32).foldl vgaWriteChar s) 32) :=
        (inScreen_writeChar ih).mpr fun h => absurd h.1 (by decide)
      rwa [List.replicate_succ', List.foldl_append]
  have hall := hspaces (width * height)
  rw [vgaClear_eq]
  generalize (List.replicate (width * height) 32).foldl vgaWriteChar s = t at hall ⊢
  exact ⟨le_refl 0, Int.natCast_nonneg 2000, hall.written⟩

/-- `vga_init` stays on the screen. -/
lemma inScreen_init (vgaMem : Int → BitVec 16) : InScreen (vgaInit (boot vgaMem)) := by
  have h : InScreen (vgaSetColor white black (boot vgaMem)) :=
    ⟨le_rfl, Int.natCast_nonneg _, fun _ hi => nomatch hi⟩
  exact h.clear

/-- After `vga_init` everything stays in the screen, however much is written, exactly as long as no
backspace is written at the beginning of the screen. -/
theorem inScreen_iff (vgaMem : Int → BitVec 16) (l : List UInt8) :
    Always writeChar InScreen (vgaInit (boot vgaMem)) l ↔
      LegalRun writeChar (fun s c => ¬ (c = 8 ∧ s.cursor = 0)) (vgaInit (boot vgaMem)) l := by
  have hl : LegalRun writeChar (fun _ _ => True) (vgaInit (boot vgaMem)) l :=
    .of_forall fun _ _ => trivial
  refine always_iff (I := fun _ => True) (fun s c _ _ hs => ?_) trivial (inScreen_init vgaMem) hl
  exact ⟨_, rfl, trivial, inScreen_writeChar hs⟩

/-- A backspace on the empty screen moves the cursor in front of it. -/
theorem not_inScreen_backspace :
    ¬ Always writeChar InScreen (vgaInit (boot fun _ => 0)) [8] := by
  rintro ⟨-, s, hs, h⟩
  cases hs
  exact (inScreen_writeChar (inScreen_init fun _ => 0)).mp h ⟨rfl, rfl⟩

end

/-! ## The terminal behind the screen -/

/-- A character on the terminal. -/
def out (t : Terminal UInt8) (c : UInt8) : Terminal UInt8 :=
  if c = 10 then t.newline width else t.put c

/-- The cells of the screen. -/
def State.cells (s : State) (i : Nat) : BitVec 16 := s.vgaMem i

/-- The console shows the terminal from row `k` on, with the attribute `attr`; cells that come in when
it scrolls have the attribute only. -/
structure Refines (base : Nat → BitVec 16) (enc : UInt8 → BitVec 16) (attr : BitVec 16) (s : State)
    (t : Terminal UInt8) (k : Nat) : Prop where
  attr : s.attr = attr
  nonneg : 0 ≤ s.cursor
  shows : Terminal.Shows width height base enc s.cells s.cursor.toNat t k
  late : k ≠ 0 → 1920 < s.cursor

section
variable {base : Nat → BitVec 16} {enc : UInt8 → BitVec 16} {attr : BitVec 16} {s : State}
  {t : Terminal UInt8} {c : UInt8} {l : List UInt8} {k : Nat}

/-- A character on both. -/
lemma Refines.writeChar (R : Refines base enc attr s t k) (hb : ∀ j, bufferLen ≤ j → base j = attr)
    (hc : c ≠ 8) (he : enc c = cell attr c) : ∃ k', Refines base enc attr (vgaWriteChar s c) (out t c) k' := by
  obtain ⟨hattr, h0, hS, -⟩ := R
  have hlen : width * height = 2000 := rfl
  have hrow : width * (height - 1) = 1920 := rfl
  -- the check for a full screen
  obtain ⟨k', h0', hlt, hattr', hS', hlate⟩ : ∃ k', 0 ≤ (scrolled s).cursor ∧
      (scrolled s).cursor < 2000 ∧ (scrolled s).attr = attr ∧
      Terminal.Shows width height base enc (scrolled s).cells (scrolled s).cursor.toNat t k' ∧
      (k' ≠ 0 → 1920 ≤ (scrolled s).cursor) := by
    have hin := hS.inside
    unfold scrolled
    split
    · rename_i hfull
      have hfull : s.cursor = 2000 := hfull
      obtain ⟨hcur, ha, -, hmove, hblank⟩ := vgaScroll_spec s
      refine ⟨k + 1, by omega, by omega, ha.trans hattr, ?_, by omega⟩
      have hS : Terminal.Shows width height base enc s.cells (width * height) t k := by
        rwa [show s.cursor.toNat = width * height by rw [hfull]; rfl] at hS
      rw [hcur]
      refine hS.scroll (by decide) (fun i hi => ?_) fun i hi hi' => ?_
      · exact hmove i (by omega) (by omega)
      · have hnext : width * (k + 1) = width * k + 80 := rfl
        rw [hb _ (by show 2000 ≤ _; omega), ← hattr]
        exact hblank i (by omega) (by omega)
    · rename_i hfull
      have hfull : ¬ s.cursor = 2000 := hfull
      have hlate := hS.late
      exact ⟨k, h0, by omega, hattr, hS, by omega⟩
  obtain ⟨u, hu⟩ : ∃ u, u = scrolled s := ⟨_, rfl⟩
  rw [← hu] at h0' hlt hattr' hS' hlate
  refine ⟨k', ?_⟩
  by_cases hnl : c = 10
  · have hrun : vgaWriteChar s c = { u with cursor := u.cursor + 80 - u.cursor.tmod 80 } := by
      rw [hu, hnl]
      rfl
    have hmod := Int.tmod_eq_emod_of_nonneg h0' (b := 80)
    have hcur : (u.cursor + 80 - u.cursor.tmod 80).toNat =
        u.cursor.toNat + width - u.cursor.toNat % width := by
      show _ = u.cursor.toNat + 80 - u.cursor.toNat % 80
      omega
    rw [hrun, out, if_pos hnl]
    refine ⟨hattr', by show 0 ≤ u.cursor + 80 - _; omega, ?_,
      fun hk => by show 1920 < u.cursor + 80 - _; have := hlate hk; omega⟩
    show Terminal.Shows _ _ _ _ u.cells (u.cursor + 80 - u.cursor.tmod 80).toNat _ _
    rw [hcur]
    exact hS'.newline (by omega)
  · have hrun : vgaWriteChar s c =
        { u.put u.cursor (cell u.attr c) with cursor := u.cursor + 1 } := by
      show (if c = 10 then _ else if c = 8 then _ else _) = _
      rw [if_neg hnl, if_neg hc, hu]
      rfl
    have hcur : (u.cursor + 1).toNat = u.cursor.toNat + 1 := by omega
    rw [hrun, out, if_neg hnl]
    refine ⟨hattr', by show 0 ≤ u.cursor + 1; omega, ?_,
      fun hk => by show 1920 < u.cursor + 1; have := hlate hk; omega⟩
    show Terminal.Shows _ _ _ _ (u.put u.cursor (cell u.attr c)).cells (u.cursor + 1).toNat _ _
    rw [hcur]
    refine hS'.put (by omega) ?_ fun i hi hne => ?_
    · rw [State.cells, put_vgaMem, if_pos (by omega), he, hattr']
    · rw [State.cells, put_vgaMem, if_neg (by omega)]
      rfl

/-- A text on both. -/
lemma Refines.foldl (R : Refines base enc attr s t k) (hb : ∀ j, bufferLen ≤ j → base j = attr)
    (hc : ∀ c ∈ l, c ≠ 8 ∧ enc c = cell attr c) :
    ∃ k', Refines base enc attr (l.foldl vgaWriteChar s) (l.foldl out t) k' := by
  induction l generalizing s t k with
  | nil => exact ⟨k, R⟩
  | cons c l ih =>
    obtain ⟨hne, he⟩ := hc c (List.mem_cons_self ..)
    obtain ⟨k', R'⟩ := R.writeChar hb hne he
    exact ih R' fun c hc' => hc c (List.mem_cons_of_mem _ hc')

/-! ## Clearing the screen -/

/-- Blanks fill the cells from the cursor on. -/
lemma out_spaces (t : Terminal UInt8) (n : Nat) :
    ((List.replicate n 32).foldl out t).pos = t.pos + n ∧
      ∀ j, ((List.replicate n 32).foldl out t).cells j =
        if t.pos ≤ j ∧ j < t.pos + n then some 32 else t.cells j := by
  induction n with
  | zero => exact ⟨rfl, fun j => by rw [if_neg (by omega)]; rfl⟩
  | succ n ih =>
    obtain ⟨hpos, hcells⟩ := ih
    rw [List.replicate_succ', List.foldl_append]
    obtain ⟨u, hu⟩ : ∃ u, u = (List.replicate n 32).foldl out t := ⟨_, rfl⟩
    rw [← hu] at hpos hcells ⊢
    refine ⟨?_, fun j => ?_⟩
    · show u.pos + 1 = _
      omega
    · show (u.put 32).cells j = _
      by_cases hj : j = u.pos
      · rw [hj, Terminal.put_self, if_pos (by omega)]
      · rw [Terminal.put_of_ne hj, hcells]
        exact if_congr (by omega) rfl rfl

/-- The screen before anything else is written, from any cursor on. -/
lemma refines_start (h0 : 0 ≤ s.cursor) (hle : s.cursor ≤ bufferLen) :
    Refines (fun j => if j < bufferLen then s.cells j else s.attr) (cell s.attr) s.attr s
      (.start s.cursor.toNat) 0 := by
  have hlen : (bufferLen : Int) = 2000 := rfl
  have hsize : width * height = 2000 := rfl
  exact ⟨rfl, h0, .start (by omega) fun i hi => (if_pos hi).symm, fun hk => absurd rfl hk⟩

/-- A screen to which `bufferLen` spaces were written from the position `p` on. -/
lemma Refines.spaces {u : State} {p : Nat}
    (R : Refines (fun j => if j < bufferLen then s.cells j else s.attr) (cell s.attr) attr u t k)
    (hp : p ≤ bufferLen) (hpos : t.pos = p + bufferLen)
    (hcells : ∀ j, t.cells j = if p ≤ j ∧ j < p + bufferLen then some 32 else none) :
    80 * k ≤ p + 2000 ∧ p ≤ 80 * k ∧ (p = 0 → k = 0) ∧ ∀ i : Nat, i < 2000 →
      u.vgaMem i = if 80 * k + i < p + 2000 then cell s.attr 32 else s.attr := by
  have hlen : bufferLen = 2000 := rfl
  have hsize : width * height = 2000 := rfl
  have hwid : width = 80 := rfl
  obtain ⟨-, h0, hS, hlate⟩ := R
  have hplace := hS.place
  have hin := hS.inside
  rw [hwid] at hplace
  refine ⟨by omega, by omega, fun he => ?_, fun i hi => ?_⟩
  · by_contra hk
    have := hlate hk
    omega
  · have hcell := hS.cell i (by omega)
    rw [hcells, hwid] at hcell
    rw [State.cells] at hcell
    rw [hcell]
    by_cases hlt : 80 * k + i < p + 2000
    · rw [if_pos hlt, if_pos (by omega), Option.elim_some]
    · rw [if_neg hlt, if_neg (by omega), Option.elim_none, if_neg (by omega)]

/-- The spaces that `vga_clear` writes, from any cursor on. -/
lemma clear_refines (h0 : 0 ≤ s.cursor) (hle : s.cursor ≤ bufferLen) :
    ∃ k, (s.cursor = 0 → k = 0) ∧ ∀ i : Nat, i < 2000 → (vgaClear s).vgaMem i =
      if 80 * k + i < s.cursor.toNat + 2000 then cell s.attr 32 else s.attr := by
  obtain ⟨k, R⟩ := (refines_start h0 hle).foldl (l := List.replicate (width * height) 32)
    (fun j hj => if_neg (Nat.not_lt.mpr hj)) fun c hc => by
      rw [List.eq_of_mem_replicate hc]
      exact ⟨by decide, rfl⟩
  obtain ⟨hpos, hcells⟩ := out_spaces (.start s.cursor.toNat) (width * height)
  have hmem := vgaClear_vgaMem s
  generalize (List.replicate (width * height) 32).foldl vgaWriteChar s = u at R hmem
  generalize (List.replicate (width * height) 32).foldl out (.start s.cursor.toNat) = t at R hpos hcells
  obtain ⟨-, -, hk, hcell⟩ := R.spaces (Int.toNat_le.mpr hle) hpos hcells
  refine ⟨k, fun he => hk (by rw [he]; rfl), fun i hi => ?_⟩
  rw [hmem, hcell i hi]

/-- `vga_clear` leaves nothing of what was on the screen, wherever the cursor was: every cell has the
current attribute, with a space or the character 0. -/
theorem vgaClear_blank (h0 : 0 ≤ s.cursor) (hle : s.cursor ≤ bufferLen) :
    (vgaClear s).cursor = 0 ∧ ∀ i : Int, 0 ≤ i → i < bufferLen →
      (vgaClear s).vgaMem i = cell s.attr 32 ∨ (vgaClear s).vgaMem i = cell s.attr 0 := by
  obtain ⟨k, -, hcell⟩ := clear_refines h0 hle
  refine ⟨vgaClear_cursor s, fun i hi hi' => ?_⟩
  have hlen : (bufferLen : Int) = 2000 := rfl
  have h := hcell i.toNat (by omega)
  rw [Int.toNat_of_nonneg hi] at h
  rw [h]
  split
  · exact .inl rfl
  · exact .inr (BitVec.zero_or).symm

/-- From the middle of a row. -/
theorem vgaClear_blank_middle :
    (vgaClear ⟨100, fun i => .ofInt 16 i, 0x0F00, []⟩).cursor = 0 ∧
      ∀ i : Int, 0 ≤ i → i < bufferLen →
        (vgaClear ⟨100, fun i => .ofInt 16 i, 0x0F00, []⟩).vgaMem i = cell 0x0F00 32 ∨
          (vgaClear ⟨100, fun i => .ofInt 16 i, 0x0F00, []⟩).vgaMem i = cell 0x0F00 0 :=
  vgaClear_blank (by decide) (by decide)

/-! ## Text -/

/-- What a cell of the terminal looks like, for text in the colours `attr`. -/
def look (attr : BitVec 16) (j : Nat) : Option UInt8 → BitVec 16
  | some c => c.toBitVec.setWidth 16 ||| attr
  | none => if j < bufferLen then cell (colors white black) 32 else cell attr 0

/-- The console shows the terminal from row `k` on, and the last 25 rows of it are on the screen. -/
structure Scrolled (attr : BitVec 16) (s : State) (t : Terminal UInt8) (k : Nat) : Prop where
  cell : ∀ i < bufferLen, s.vgaMem i = look attr (width * k + i) (t.cells (width * k + i))
  cursor : s.cursor = t.pos - (width : Int) * k
  kept : ∀ j, t.cells j ≠ none → t.rows width ≤ j / width + height →
    ∃ i < bufferLen, j = width * k + i

/-- After `vga_init` the screen is blank. -/
lemma refines_init (vgaMem : Int → BitVec 16) (fore back : UInt8) :
    Refines (fun j => look (colors fore back) j none)
      (fun c => c.toBitVec.setWidth 16 ||| colors fore back) (colors fore back)
      (vgaSetColor fore back (vgaInit (boot vgaMem))) (.start 0) 0 := by
  have hcur : (vgaSetColor fore back (vgaInit (boot vgaMem))).cursor = 0 := by
    rw [vgaSetColor_cursor, vgaInit, vgaClear_cursor]
  have hblank : ∀ i : Nat, i < 2000 →
      (vgaSetColor fore back (vgaInit (boot vgaMem))).vgaMem i = cell (colors white black) 32 := by
    intro i hi
    obtain ⟨s, hs⟩ : ∃ s, s = vgaSetColor white black (boot vgaMem) := ⟨_, rfl⟩
    have hs0 : s.cursor = 0 := by rw [hs]; rfl
    have hattr : s.attr = colors white black := by rw [hs]; rfl
    obtain ⟨k, hk, hcell⟩ := clear_refines hs0.ge (hs0.le.trans (Int.natCast_nonneg _))
    obtain rfl := hk hs0
    rw [vgaSetColor_vgaMem, vgaInit, ← hs, hcell i hi, hattr, if_pos (by omega)]
  refine ⟨rfl, hcur.ge, ?_, fun hk => absurd rfl hk⟩
  rw [hcur]
  refine .start (Nat.zero_le _) fun i hi => ?_
  have hsize : width * height = 2000 := rfl
  have hlen : bufferLen = 2000 := rfl
  rw [look, if_pos (by omega), State.cells, hblank i (by omega)]

/-- A text in ASCII without backspaces, however long, is on the console as it is on a terminal that has
no end, but for the rows that were scrolled away. -/
theorem vgaWrite_scrolled {m : Mem} {str : Nat} (vgaMem : Int → BitVec 16) (fore back : UInt8)
    (hs : IsStr m str l) (hl : ∀ c ∈ l, c ≤ 127 ∧ c ≠ 8) :
    ∃ s k, vgaWrite m str (vgaSetColor fore back (vgaInit (boot vgaMem))) = .ok s ∧
      Scrolled (colors fore back) s (l.foldl out (.start 0)) k := by
  have hascii : ∀ c ∈ l, c ≠ 8 ∧
      c.toBitVec.setWidth 16 ||| colors fore back = cell (colors fore back) c := by
    intro c hc
    obtain ⟨hle, hne⟩ := hl c hc
    refine ⟨hne, ?_⟩
    rw [cell, BitVec.signExtend_eq_setWidth_of_msb_false]
    rw [BitVec.msb_eq_false_iff_two_mul_lt]
    have : c.toNat ≤ 127 := hle
    show 2 * c.toNat < 256
    omega
  obtain ⟨k, hattr, h0, hS, hlate⟩ := (refines_init vgaMem fore back).foldl
    (fun j hj => by
      show look _ j none = _
      rw [look, if_neg (by omega)]
      exact BitVec.zero_or) hascii
  refine ⟨_, k, vgaWrite_spec hs _, fun i hi => ?_, ?_, fun j hj hrow => ?_⟩
  · refine (hS.cell i hi).trans ?_
    cases Terminal.cells _ _ <;> rfl
  · have hplace := hS.place
    omega
  · exact hS.kept (by decide) (fun hk => by have := hlate hk; show 1920 < _; omega) hj hrow

/-- A line of text. -/
theorem vgaWrite_scrolled_hi :
    ∃ s k, vgaWrite (fun a => if a = 0 then 72 else if a = 1 then 105 else 0) 0
        (vgaSetColor 3 0 (vgaInit (boot fun _ => 0))) = .ok s ∧
      Scrolled (colors 3 0) s ([72, 105].foldl out (.start 0)) k := by
  refine vgaWrite_scrolled _ 3 0 ⟨by decide, by decide⟩ ?_
  simp only [List.forall_mem_cons]
  exact ⟨⟨by decide, by decide⟩, ⟨by decide, by decide⟩, nofun⟩

end

end ToeS.Vga
