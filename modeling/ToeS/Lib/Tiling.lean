import Mathlib.Tactic

/-!
# Tilings of an interval

A list of objects, each with a low end `lo` and a high end `hi`, tiles `[a, e)` when every object
starts where the previous one stops. The lemmas below are the ones a walk over adjacent blocks
needs: cutting a tiling at one member (`tiles_middle`), the bounds of a member, the disjointness of
two members and the number of members. A tiling is determined by its start and the lengths
(`Tiles.unique`).
-/

namespace ToeS.Lib

variable {β : Type} (lo hi : β → Nat)

/-- The objects of the list follow each other without gap from `a` to `e`. -/
def Tiles : Nat → List β → Nat → Prop
  | a, [], e => a = e
  | a, b :: bs, e => lo b = a ∧ Tiles (hi b) bs e

variable {lo hi} {a e : Nat} {b c : β} {l l₁ l₂ : List β}

/-- A tiling by a concatenation is cut at one address. -/
lemma tiles_append :
    Tiles lo hi a (l₁ ++ l₂) e ↔ ∃ c, Tiles lo hi a l₁ c ∧ Tiles lo hi c l₂ e := by
  induction l₁ generalizing a with
  | nil => simp [Tiles]
  | cons b l₁ ih => simp [Tiles, ih, and_assoc]

/-- Where a tiling ends is determined by its members. -/
lemma Tiles.stop_unique {e' : Nat} (h : Tiles lo hi a l e) (h' : Tiles lo hi a l e') : e = e' := by
  induction l generalizing a with
  | nil => exact Eq.trans (Eq.symm h) h'
  | cons b l ih => exact ih h.2 h'.2

/-- A tiling cut at the member `b`. -/
lemma tiles_middle :
    Tiles lo hi a (l₁ ++ b :: l₂) e ↔ Tiles lo hi a l₁ (lo b) ∧ Tiles lo hi (hi b) l₂ e := by
  rw [tiles_append]
  constructor
  · rintro ⟨c, h₁, rfl, h₂⟩
    exact ⟨h₁, h₂⟩
  · rintro ⟨h₁, h₂⟩
    exact ⟨lo b, h₁, rfl, h₂⟩

/-- A member outside of `p`, with no other one behind it, ends where the next member of `p` begins. -/
lemma Tiles.hi_gap {p : β → Bool} (h : Tiles lo hi a (b :: l) e) (hb : p b = false)
    (hc : (b :: l).IsChain fun x y => p x = true ∨ p y = true) :
    hi b = ((l.filter p).head?.map lo).getD e := by
  cases l with
  | nil => exact h.2
  | cons c l =>
    have hpc : p c = true := by simpa [hb] using (List.isChain_cons_cons.mp hc).1
    rw [List.filter_cons_of_pos hpc]
    exact h.2.1.symm

section
variable (hpos : ∀ b, lo b < hi b)
include hpos

/-- The end is not before the beginning. -/
lemma Tiles.le (h : Tiles lo hi a l e) : a ≤ e := by
  induction l generalizing a with
  | nil => exact le_of_eq h
  | cons b l ih =>
    obtain ⟨rfl, h⟩ := h
    have := ih h
    have := hpos b
    omega

/-- A member lies inside the interval. -/
lemma Tiles.bounds (h : Tiles lo hi a l e) (hb : b ∈ l) : a ≤ lo b ∧ hi b ≤ e := by
  obtain ⟨l₁, l₂, rfl⟩ := List.append_of_mem hb
  obtain ⟨h₁, h₂⟩ := tiles_middle.mp h
  exact ⟨h₁.le hpos, h₂.le hpos⟩

/-- Members before and after `b` lie below and above it. -/
lemma Tiles.around (h : Tiles lo hi a (l₁ ++ b :: l₂) e) :
    (∀ c ∈ l₁, hi c ≤ lo b) ∧ ∀ c ∈ l₂, hi b ≤ lo c := by
  obtain ⟨h₁, h₂⟩ := tiles_middle.mp h
  exact ⟨fun c hc => (h₁.bounds hpos hc).2, fun c hc => (h₂.bounds hpos hc).1⟩

/-- Two members are the same or do not overlap. -/
lemma Tiles.apart (h : Tiles lo hi a l e) (hb : b ∈ l) (hc : c ∈ l) :
    b = c ∨ hi b ≤ lo c ∨ hi c ≤ lo b := by
  obtain ⟨l₁, l₂, rfl⟩ := List.append_of_mem hb
  obtain ⟨h₁, h₂⟩ := h.around hpos
  rcases List.mem_append.mp hc with hc | hc
  · exact .inr (.inr (h₁ c hc))
  · rcases List.mem_cons.mp hc with rfl | hc
    · exact .inl rfl
    · exact .inr (.inl (h₂ c hc))

/-- A member is determined by its low end. -/
lemma Tiles.eq_of_lo (h : Tiles lo hi a l e) (hb : b ∈ l) (hc : c ∈ l) (e : lo b = lo c) :
    b = c := by
  have := hpos b
  have := hpos c
  rcases h.apart hpos hb hc with h | h | h
  · exact h
  all_goals omega

/-- No block comes twice. -/
lemma Tiles.nodup (h : Tiles lo hi a l e) : l.Nodup := by
  induction l generalizing a with
  | nil => exact .nil
  | cons b l ih =>
    refine List.nodup_cons.mpr ⟨fun hb => ?_, ih h.2⟩
    have := (h.2.bounds hpos hb).1
    have := hpos b
    omega

/-- A tiling goes through the end of another one that begins where it does, as long as members that begin
at one address also end at one. -/
lemma Tiles.follow {x : Nat} (h : Tiles lo hi a l x) (h' : Tiles lo hi a l₁ e) (hx : x ≤ e)
    (hsame : ∀ b ∈ l, ∀ c ∈ l₁, lo b = lo c → hi b = hi c) : ∃ l', Tiles lo hi x l' e ∧ l' ⊆ l₁ := by
  induction l generalizing a l₁ with
  | nil =>
    obtain rfl : a = x := h
    exact ⟨l₁, h', List.Subset.refl _⟩
  | cons b l ih =>
    obtain ⟨rfl, h⟩ := h
    have hb := hpos b
    have hle := h.le hpos
    cases l₁ with
    | nil =>
      have he : lo b = e := h'
      omega
    | cons c l₁ =>
      obtain ⟨hc, h'⟩ := h'
      rw [← hsame b (List.mem_cons_self ..) c (List.mem_cons_self ..) hc.symm] at h'
      obtain ⟨l', ht, hsub⟩ := ih h h' fun b hb c hc =>
        hsame b (List.mem_cons_of_mem _ hb) c (List.mem_cons_of_mem _ hc)
      exact ⟨l', ht, fun c hc => List.mem_cons_of_mem _ (hsub hc)⟩

/-- The members stand in the order of their low ends. -/
lemma Tiles.pairwise (h : Tiles lo hi a l e) : l.Pairwise fun b c => lo b < lo c := by
  induction l generalizing a with
  | nil => exact .nil
  | cons b l ih =>
    refine .cons (fun c hc => ?_) (ih h.2)
    have hc := (h.2.bounds hpos hc).1
    have hb := hpos b
    omega

section
variable {p : β → Bool} {l' : List β}

/-- A tiling in which the members outside of `p` do not touch is determined by the members of `p`. -/
theorem Tiles.eq_of_filter (hext : ∀ b c, lo b = lo c → hi b = hi c → p b = p c → b = c)
    (h : Tiles lo hi a l e) (h' : Tiles lo hi a l' e)
    (hc : l.IsChain fun x y => p x = true ∨ p y = true)
    (hc' : l'.IsChain fun x y => p x = true ∨ p y = true) (hf : l.filter p = l'.filter p) :
    l = l' := by
  induction l generalizing a l' with
  | nil =>
    cases l' with
    | nil => rfl
    | cons c l' =>
      obtain rfl : a = e := h
      obtain ⟨rfl, h'⟩ := h'
      have hle := h'.le hpos
      have hlt := hpos c
      omega
  | cons b l ih =>
    cases l' with
    | nil =>
      obtain rfl : a = e := h'
      obtain ⟨rfl, h⟩ := h
      have hle := h.le hpos
      have hlt := hpos b
      omega
    | cons c l' =>
      have hlo : lo b = lo c := h.1.trans h'.1.symm
      -- a member of `p` and a gap do not begin at one address
      have hmixed : ∀ {b c : β} {l l' : List β}, Tiles lo hi a (b :: l) e → Tiles lo hi a (c :: l') e →
          (b :: l).filter p = (c :: l').filter p → p b = true → p c = false → False := by
        intro b c l l' h h' hf hb hc
        rw [List.filter_cons_of_pos hb, List.filter_cons_of_neg (by simp [hc])] at hf
        have hmem : b ∈ l' := List.mem_of_mem_filter (hf ▸ List.mem_cons_self)
        have hle := (h'.2.bounds hpos hmem).1
        have hlt := hpos c
        have hb := h.1
        have hc := h'.1
        omega
      cases hb : p b with
      | true =>
        cases hpc : p c with
        | true =>
          rw [List.filter_cons_of_pos hb, List.filter_cons_of_pos hpc] at hf
          obtain ⟨rfl, hrest⟩ := List.cons.inj hf
          rw [ih h.2 h'.2 hc.tail hc'.tail hrest]
        | false => exact (hmixed h h' hf hb hpc).elim
      | false =>
        cases hpc : p c with
        | true => exact (hmixed h' h hf.symm hpc hb).elim
        | false =>
          rw [List.filter_cons_of_neg (by simp [hb]), List.filter_cons_of_neg (by simp [hpc])] at hf
          have hhi : hi b = hi c := by
            rw [h.hi_gap hb hc, h'.hi_gap hpc hc', hf]
          obtain rfl := hext b c hlo hhi (hb.trans hpc.symm)
          rw [ih h.2 h'.2 hc.tail hc'.tail hf]

end

end

/-- What tiles an interval with given lengths is determined by its start. -/
lemma Tiles.unique {hi : Nat → Nat} (hpos : ∀ n, n < hi n) {l l' : List Nat}
    (h : Tiles id hi a l e) (h' : Tiles id hi a l' e) : l = l' := by
  induction l generalizing a l' with
  | nil =>
    cases l' with
    | nil => rfl
    | cons b l' =>
      obtain rfl : a = e := h
      obtain ⟨rfl, h'⟩ := h'
      have := hpos b
      have := h'.le hpos
      exact absurd this (not_le.mpr ‹_›)
  | cons b l ih =>
    obtain ⟨rfl, h⟩ := h
    cases l' with
    | nil =>
      obtain rfl : b = e := h'
      have := hpos b
      have := h.le hpos
      exact absurd this (not_le.mpr ‹_›)
    | cons c l' =>
      obtain ⟨rfl, h'⟩ := h'
      rw [ih h h']
      rfl

/-- A tiling by low ends only. -/
lemma tiles_map (f : Nat → Nat) (lo hi : β → Nat) (h : ∀ b ∈ l, f (lo b) = hi b) :
    Tiles id f a (l.map lo) e ↔ Tiles lo hi a l e := by
  induction l generalizing a with
  | nil => exact Iff.rfl
  | cons b l ih =>
    rw [List.map_cons, Tiles, Tiles, h b List.mem_cons_self,
      ih fun c hc => h c (List.mem_cons_of_mem _ hc), id_eq]

/-- Members of width at least `w` are at most `(e - a) / w` many. -/
lemma Tiles.length_le {w : Nat} (hw : ∀ b, lo b + w ≤ hi b) (h : Tiles lo hi a l e) :
    a + w * l.length ≤ e := by
  induction l generalizing a with
  | nil => exact le_of_eq h
  | cons b l ih =>
    obtain ⟨rfl, h⟩ := h
    have := ih h
    have := hw b
    rw [List.length_cons, Nat.mul_succ]
    omega

end ToeS.Lib
