import Mathlib.Tactic

/-!
# A terminal and its window

A terminal has rows of `w` columns without end: a character is stored at the position and moves it on,
a newline moves it to the start of the next row. A screen of `h` rows shows a part of it. `Shows` says
that the screen with the given cells and cursor shows the rows of the terminal from the `k`-th on:
what was written is there, and the cells that were not written read as `base` says.

The rules say how the two move together, for a screen that scrolls when it is full and the next
character comes. They speak of the cells of the screen one by one, so they fit any representation.
-/

namespace ToeS.Lib

/-- Cells that may have been written, and the position of the next character. -/
structure Terminal (α : Type) where
  cells : Nat → Option α
  pos : Nat

namespace Terminal
variable {α β : Type}

/-- Nothing was written; the next character goes to `p`. -/
def start (p : Nat) : Terminal α := ⟨fun _ => none, p⟩

def put (t : Terminal α) (a : α) : Terminal α :=
  ⟨Function.update t.cells t.pos (some a), t.pos + 1⟩

def newline (w : Nat) (t : Terminal α) : Terminal α := { t with pos := (t.pos / w + 1) * w }

/-- A backspace: the character before the position is replaced, and the next one goes there. -/
def back (t : Terminal α) (a : α) : Terminal α :=
  ⟨Function.update t.cells (t.pos - 1) (some a), t.pos - 1⟩

/-- The number of rows that were begun. -/
def rows (w : Nat) (t : Terminal α) : Nat := (t.pos + w - 1) / w

/-- A screen with `h` rows of `w` columns is a window on the terminal, from row `k` on. -/
structure Window (w h : Nat) (base : Nat → β) (enc : α → β) (cells : Nat → β) (cursor : Nat)
    (t : Terminal α) (k : Nat) : Prop where
  cell : ∀ i < w * h, cells i = (t.cells (w * k + i)).elim (base (w * k + i)) enc
  place : cursor + w * k = t.pos
  inside : cursor ≤ w * h
  /-- Nothing was written below. -/
  written : ∀ j, t.cells j ≠ none → j < w * k + w * h

/-- A window on a terminal without backspaces. -/
structure Shows (w h : Nat) (base : Nat → β) (enc : α → β) (cells : Nat → β) (cursor : Nat)
    (t : Terminal α) (k : Nat) : Prop where
  cell : ∀ i < w * h, cells i = (t.cells (w * k + i)).elim (base (w * k + i)) enc
  place : cursor + w * k = t.pos
  inside : cursor ≤ w * h
  /-- It was not scrolled before it was full. -/
  late : k ≠ 0 → w * (h - 1) ≤ cursor
  written : ∀ j, t.cells j ≠ none → j < t.pos

section
variable {w h cursor k j : Nat} {base base' : Nat → β} {enc : α → β} {cells cells' : Nat → β}
  {t : Terminal α} {a : α}

/-- The character that is put is in its cell. -/
lemma put_self : (t.put a).cells t.pos = some a := Function.update_self ..

/-- Putting a character leaves the other cells. -/
lemma put_of_ne (h : j ≠ t.pos) : (t.put a).cells j = t.cells j := Function.update_of_ne h ..

/-! ## Any window -/

/-- A screen that nothing was printed to. -/
lemma Window.start (hc : cursor ≤ w * h) (hb : ∀ i < w * h, cells i = base i) :
    Window w h base enc cells cursor (start cursor) 0 where
  cell := fun i hi => by rw [Nat.mul_zero, Nat.zero_add]; exact hb i hi
  place := by rw [Nat.mul_zero]; rfl
  inside := hc
  written := fun _ hj => absurd rfl hj

/-- A full screen scrolls. What comes in may be anything. -/
lemma Window.scroll (W : Window w h base enc cells (w * h) t k) (hh : 0 < h)
    (hbase : ∀ j < w * k + w * h, base' j = base j)
    (hmove : ∀ i < w * (h - 1), cells' i = cells (i + w))
    (hblank : ∀ i, w * (h - 1) ≤ i → i < w * h → cells' i = base' (w * (k + 1) + i)) :
    Window w h base' enc cells' (w * (h - 1)) t (k + 1) := by
  have hrow : w * (h - 1) + w = w * h := by
    rw [← Nat.mul_succ, Nat.succ_eq_add_one, Nat.sub_add_cancel hh]
  have hnext : w * (k + 1) = w * k + w := Nat.mul_succ w k
  have hpos := W.place
  refine ⟨fun i hi => ?_, by omega, by omega, fun j hj => (W.written j hj).trans_le (by omega)⟩
  by_cases hlt : i < w * (h - 1)
  · rw [hmove i hlt, W.cell (i + w) (by omega), show w * k + (i + w) = w * (k + 1) + i by omega,
      hbase _ (by omega)]
  · have hnone : t.cells (w * (k + 1) + i) = none := by
      by_contra hs
      have := W.written _ hs
      omega
    rw [hblank i (by omega) hi, hnone]
    rfl

/-- A cell of the screen is written. -/
lemma Window.update {i pos : Nat} (W : Window w h base enc cells cursor t k) (hi : i < w * h)
    (hnew : pos ≤ w * h) (hput : cells' i = enc a)
    (hold : ∀ j < w * h, j ≠ i → cells' j = cells j) :
    Window w h base enc cells' pos ⟨Function.update t.cells (w * k + i) (some a), pos + w * k⟩ k := by
  refine ⟨fun j hj => ?_, rfl, hnew, fun j hj => ?_⟩
  · show _ = (Function.update t.cells (w * k + i) (some a) (w * k + j)).elim _ _
    by_cases hji : j = i
    · rw [hji, hput, Function.update_self]
      rfl
    · rw [hold j hj hji, W.cell j hj, Function.update_of_ne (by omega)]
  · change Function.update t.cells (w * k + i) (some a) j ≠ none at hj
    by_cases hji : j = w * k + i
    · omega
    · rw [Function.update_of_ne hji] at hj
      exact W.written j hj

/-- A character is stored under the cursor. -/
lemma Window.put (W : Window w h base enc cells cursor t k) (hlt : cursor < w * h)
    (hput : cells' cursor = enc a) (hold : ∀ i < w * h, i ≠ cursor → cells' i = cells i) :
    Window w h base enc cells' (cursor + 1) (t.put a) k := by
  have W' := W.update hlt (Nat.succ_le_of_lt hlt) hput hold
  rwa [show w * k + cursor = t.pos by rw [← W.place, Nat.add_comm],
    show cursor + 1 + w * k = t.pos + 1 by rw [← W.place]; omega] at W'

/-- A character is stored before the cursor, which goes there. -/
lemma Window.back (W : Window w h base enc cells cursor t k) (hpos : 0 < cursor)
    (hput : cells' (cursor - 1) = enc a)
    (hold : ∀ i < w * h, i ≠ cursor - 1 → cells' i = cells i) :
    Window w h base enc cells' (cursor - 1) (t.back a) k := by
  have hin := W.inside
  have W' := W.update (i := cursor - 1) (by omega) (by omega : cursor - 1 ≤ w * h) hput hold
  rwa [show w * k + (cursor - 1) = t.pos - 1 by rw [← W.place]; omega,
    show cursor - 1 + w * k = t.pos - 1 by rw [← W.place]; omega] at W'

/-- A newline moves the cursor. -/
lemma Window.newline (W : Window w h base enc cells cursor t k) (hlt : cursor < w * h) :
    Window w h base enc cells (cursor + w - cursor % w) (t.newline w) k := by
  have hw : 0 < w := Nat.pos_of_ne_zero fun e => by
    rw [e, Nat.zero_mul] at hlt
    exact Nat.not_lt_zero _ hlt
  have hpos := W.place
  have hdiv := Nat.div_add_mod cursor w
  have hmod := Nat.mod_lt cursor hw
  have hnext : cursor + w - cursor % w = w * (cursor / w + 1) := by
    rw [Nat.mul_succ]
    omega
  have hrow : t.pos / w = cursor / w + k := by rw [← hpos, Nat.add_mul_div_left _ _ hw]
  refine ⟨W.cell, ?_, ?_, W.written⟩
  · show _ = (t.pos / w + 1) * w
    rw [hnext, hrow]
    ring
  · rw [hnext]
    exact Nat.mul_le_mul_left w (Nat.div_lt_of_lt_mul hlt)

/-! ## Without backspaces -/

/-- What the screen shows is a window on the text. -/
lemma Shows.window (S : Shows w h base enc cells cursor t k) : Window w h base enc cells cursor t k :=
  ⟨S.cell, S.place, S.inside, fun j hj => by
    have := S.written j hj
    have := S.place
    have := S.inside
    omega⟩

/-- A screen shows a terminal in which nothing was written. -/
lemma Shows.start (hc : cursor ≤ w * h) (hb : ∀ i < w * h, cells i = base i) :
    Shows w h base enc cells cursor (start cursor) 0 :=
  have W : Window w h base enc cells cursor (.start cursor) 0 := .start hc hb
  ⟨W.cell, W.place, W.inside, fun hk => absurd rfl hk, fun _ hj => absurd rfl hj⟩

/-- A full screen scrolls. -/
lemma Shows.scroll (S : Shows w h base enc cells (w * h) t k) (hh : 0 < h)
    (hmove : ∀ i < w * (h - 1), cells' i = cells (i + w))
    (hblank : ∀ i, w * (h - 1) ≤ i → i < w * h → cells' i = base (w * (k + 1) + i)) :
    Shows w h base enc cells' (w * (h - 1)) t (k + 1) :=
  have W := S.window.scroll hh (fun _ _ => rfl) hmove hblank
  ⟨W.cell, W.place, W.inside, fun _ => le_rfl, S.written⟩

/-- A character is stored under the cursor. -/
lemma Shows.put (S : Shows w h base enc cells cursor t k) (hlt : cursor < w * h)
    (hput : cells' cursor = enc a) (hold : ∀ i < w * h, i ≠ cursor → cells' i = cells i) :
    Shows w h base enc cells' (cursor + 1) (t.put a) k := by
  have W := S.window.put hlt hput hold
  refine ⟨W.cell, W.place, W.inside, fun hk => (S.late hk).trans (Nat.le_succ _), fun j hj => ?_⟩
  show j < t.pos + 1
  by_cases hjp : j = t.pos
  · omega
  · rw [put_of_ne hjp] at hj
    exact (S.written j hj).trans (Nat.lt_succ_self _)

/-- A newline moves the cursor. -/
lemma Shows.newline (S : Shows w h base enc cells cursor t k) (hlt : cursor < w * h) :
    Shows w h base enc cells (cursor + w - cursor % w) (t.newline w) k := by
  have W := S.window.newline hlt
  have hle : cursor ≤ cursor + w - cursor % w := by
    have hw : 0 < w := Nat.pos_of_ne_zero fun e => by
      rw [e, Nat.zero_mul] at hlt
      exact Nat.not_lt_zero _ hlt
    have := Nat.mod_lt cursor hw
    omega
  have hpos := S.place
  have hpos' := W.place
  refine ⟨W.cell, hpos', W.inside, fun hk => (S.late hk).trans hle, fun j hj => ?_⟩
  exact (S.written j hj).trans_le (by omega)

/-- Once the cursor has left the start of the last row, the rows that were begun last are on the
screen. -/
lemma Shows.kept (S : Shows w h base enc cells cursor t k) (hh : 0 < h)
    (hk : k ≠ 0 → w * (h - 1) < cursor) (hj : t.cells j ≠ none) (hrow : t.rows w ≤ j / w + h) :
    ∃ i < w * h, j = w * k + i := by
  have hpos := S.place
  have hin := S.inside
  have hlt := S.written j hj
  by_cases h0 : k = 0
  · rw [h0, Nat.mul_zero] at hpos ⊢
    exact ⟨j, by omega, (Nat.zero_add j).symm⟩
  · have hlate := hk h0
    have hlast : w * (h - 1) + w = w * h := by
      rw [← Nat.mul_succ, Nat.succ_eq_add_one, Nat.sub_add_cancel hh]
    -- the last row that was begun is the last one of the screen
    have hrows : t.rows w = k + h := by
      have hlo : (k + h) * w = w * k + w * h := by ring
      have hhi : (k + h + 1) * w = w * k + w * h + w := by ring
      rw [rows]
      exact Nat.div_eq_of_lt_le (by omega) (by omega)
    have hk' : k ≤ j / w := by omega
    have hle : w * k ≤ j := (Nat.mul_le_mul_left w hk').trans (Nat.mul_div_le j w)
    exact ⟨j - w * k, by omega, by omega⟩

end

end Terminal

end ToeS.Lib
