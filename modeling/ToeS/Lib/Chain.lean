import Mathlib.Tactic

/-!
# Linked lists in a pointer structure

A singly or doubly linked list is given by its link functions: `next` and `prev` from nodes to
nodes, with a `null` node that ends it. `Seg next h l t` says that following `next` from `h` visits
the nodes of `l` and arrives at `t`; a `Chain` arrives at `null`. `Back prev l` says that every node
of `l` but the first points back at its predecessor; nothing is said about the first one.

The edits of a doubly linked list are lemmas about a list cut at one node: the links around the cut
are given their new values and every other link is kept.
-/

namespace ToeS.Lib

variable {α : Type} (null : α) (next prev : α → α)

/-- Following `next` from `h` visits `l` and arrives at `t`. -/
def Seg : α → List α → α → Prop
  | h, [], t => h = t
  | h, a :: l, t => h = a ∧ a ≠ null ∧ Seg (next a) l t

/-- Following `next` from `h` visits `l` and ends. -/
abbrev Chain (h : α) (l : List α) : Prop := Seg null next h l null

/-- Every node but the first points back at its predecessor. -/
def Back : List α → Prop
  | a :: b :: l => prev b = a ∧ Back (b :: l)
  | _ => True

variable {null next prev} {next' prev' : α → α} {a b h h' t : α} {l l' pre post : List α}

/-- A segment of two parts meets at an element in between. -/
lemma seg_append :
    Seg null next h (l ++ l') t ↔ ∃ x, Seg null next h l x ∧ Seg null next x l' t := by
  induction l generalizing h with
  | nil => simp [Seg]
  | cons a l ih => simp [Seg, ih, and_assoc]

/-- A segment cut at the node `a`. -/
lemma seg_middle :
    Seg null next h (pre ++ a :: post) t ↔
      Seg null next h pre a ∧ a ≠ null ∧ Seg null next (next a) post t := by
  rw [seg_append]
  constructor
  · rintro ⟨x, h₁, rfl, hn, h₂⟩
    exact ⟨h₁, hn, h₂⟩
  · rintro ⟨h₁, hn, h₂⟩
    exact ⟨a, h₁, rfl, hn, h₂⟩

/-- A segment reads the `next` links of its own nodes only. -/
lemma Seg.congr (hs : Seg null next h l t) (hag : ∀ x ∈ l, next' x = next x) :
    Seg null next' h l t := by
  induction l generalizing h with
  | nil => exact hs
  | cons a l ih =>
    obtain ⟨rfl, hn, hs⟩ := hs
    refine ⟨rfl, hn, ?_⟩
    rw [hag h List.mem_cons_self]
    exact ih hs fun x hx => hag x (List.mem_cons_of_mem _ hx)

/-- No element of a segment is the end. -/
lemma Seg.ne_null (hs : Seg null next h l t) (ha : a ∈ l) : a ≠ null := by
  obtain ⟨l₁, l₂, rfl⟩ := List.append_of_mem ha
  exact (seg_middle.mp hs).2.1

/-- The head of a chain is its first node, or null. -/
lemma Chain.head_eq (hs : Chain null next h l) : h = l.headD null := by
  cases l with
  | nil => exact hs
  | cons a l => exact hs.1

/-- The list is empty if the head is the end. -/
lemma Chain.head_eq_null (hs : Chain null next h l) : h = null ↔ l = [] := by
  cases l with
  | nil => exact ⟨fun _ => rfl, fun _ => hs⟩
  | cons a l =>
    obtain ⟨rfl, hn, _⟩ := hs
    simp [hn]

/-- The node after `a` in a chain. -/
lemma Chain.next_eq (hs : Chain null next h (pre ++ a :: post)) : next a = post.headD null :=
  Chain.head_eq (seg_middle.mp hs).2.2

/-- The nodes of a chain are determined by its head. -/
lemma Chain.unique (hs : Chain null next h l) (hs' : Chain null next h l') : l = l' := by
  induction l generalizing h l' with
  | nil =>
    obtain rfl : h = null := hs
    exact (hs'.head_eq_null.mp rfl).symm
  | cons a l ih =>
    obtain ⟨rfl, hn, hs⟩ := hs
    cases l' with
    | nil => exact absurd hs' hn
    | cons b l' =>
      obtain ⟨rfl, _, hs'⟩ := hs'
      rw [ih hs hs']

/-- No node occurs twice in a chain. -/
lemma Chain.nodup (hs : Chain null next h l) : l.Nodup := by
  induction l generalizing h with
  | nil => exact .nil
  | cons a l ih =>
    refine List.nodup_cons.mpr ⟨fun ha => ?_, ih hs.2.2⟩
    obtain ⟨l₁, l₂, rfl⟩ := List.append_of_mem ha
    -- the chain from `a` would be a proper suffix of itself
    have h₁ : Chain null next a (a :: (l₁ ++ a :: l₂)) := ⟨rfl, hs.2⟩
    have h₂ : Chain null next a (a :: l₂) :=
      ⟨rfl, hs.2.1, (seg_middle.mp hs.2.2).2.2⟩
    have := congrArg List.length (h₁.unique h₂)
    simp only [List.length_cons, List.length_append] at this
    omega

/-- A chain of nodes below `n` is followed to its end in fewer than `n` steps. -/
lemma Chain.length_lt {next : Nat → Nat} {h n : Nat} {l : List Nat} (hs : Chain 0 next h l)
    (hn : 0 < n) (hl : ∀ a ∈ l, a < n) : l.length < n := by
  have hnd : (0 :: l).Nodup := List.nodup_cons.mpr ⟨fun h0 => hs.ne_null h0 rfl, hs.nodup⟩
  have hsub : 0 :: l ⊆ List.range n := by
    intro x hx
    rw [List.mem_range]
    rcases List.mem_cons.mp hx with rfl | hx
    · exact hn
    · exact hl x hx
  have := (List.subperm_of_subset hnd hsub).length_le
  rw [List.length_cons, List.length_range] at this
  omega

/-- A chain goes on behind a segment of it. -/
lemma Chain.drop (hs : Chain null next h l) (hseg : Seg null next h l' t) :
    ∃ r, l = l' ++ r ∧ Chain null next t r := by
  induction l' generalizing h l with
  | nil =>
    obtain rfl : h = t := hseg
    exact ⟨l, rfl, hs⟩
  | cons a l' ih =>
    obtain ⟨rfl, hn, hseg⟩ := hseg
    cases l with
    | nil => exact absurd hs hn
    | cons b l =>
      obtain ⟨rfl, -, hs⟩ := hs
      obtain ⟨r, rfl, hr⟩ := ih hs hseg
      exact ⟨r, rfl, hr⟩

/-- Where a segment leads back to its first node there is no end. -/
lemma Seg.no_chain (hseg : Seg null next a (a :: l) a) (l' : List α) : ¬ Chain null next a l' := by
  intro hs
  induction hn : l'.length using Nat.strong_induction_on generalizing l' with
  | _ n ih =>
    obtain ⟨r, rfl, hr⟩ := hs.drop hseg
    refine ih r.length ?_ r hr rfl
    rw [← hn, List.length_append, List.length_cons]
    omega

/-- The `k`-th node that following `next` from `h` comes to, `null` once it has ended. -/
def visit [DecidableEq α] (null : α) (next : α → α) (h : α) : Nat → α
  | 0 => h
  | k + 1 => if visit null next h k = null then null else next (visit null next h k)

/-- To go `k + 1` steps is to go `k` steps from the next element. -/
lemma visit_next [DecidableEq α] (hh : h ≠ null) (k : Nat) :
    visit null next h (k + 1) = visit null next (next h) k := by
  induction k with
  | zero => exact if_neg hh
  | succ k ih => rw [visit, ih, visit]

/-- The node a segment arrives at. -/
lemma Seg.visit [DecidableEq α] (hs : Seg null next h l t) : visit null next h l.length = t := by
  induction l generalizing h with
  | nil => exact hs
  | cons a l ih =>
    obtain ⟨rfl, hn, hs⟩ := hs
    rw [List.length_cons, visit_next hn]
    exact ih hs

/-! ## Edits -/

/-- Redirect the link of the last node. -/
lemma Chain.redirect (hs : Chain null next h (l ++ [b])) (hb : next' b = t)
    (hag : ∀ x ∈ l, next' x = next x) : Seg null next' h (l ++ [b]) t := by
  obtain ⟨h₁, hn, -⟩ := seg_middle.mp hs
  exact seg_middle.mpr ⟨h₁.congr hag, hn, hb⟩

/-- Put `a` in front. -/
lemma Chain.push (hs : Chain null next h l) (ha : a ≠ null) (hnext : next' a = h)
    (hag : ∀ x ∈ l, next' x = next x) : Chain null next' a (a :: l) := by
  refine ⟨rfl, ha, ?_⟩
  rw [hnext]
  exact hs.congr hag

/-- Link `a` in behind `b`. -/
lemma Chain.insert (hs : Chain null next h (pre ++ b :: post)) (ha : a ≠ null)
    (hb : next' b = a) (hnext : next' a = next b)
    (hag : ∀ x, x ∈ pre ∨ x ∈ post → next' x = next x) :
    Chain null next' h (pre ++ b :: a :: post) := by
  obtain ⟨h₁, hn, h₂⟩ := seg_middle.mp hs
  refine seg_middle.mpr ⟨h₁.congr fun x hx => hag x (.inl hx), hn, ?_⟩
  rw [hb]
  refine ⟨rfl, ha, ?_⟩
  rw [hnext]
  exact h₂.congr fun x hx => hag x (.inr hx)

/-- Drop the first node. -/
lemma Chain.pop (hs : Chain null next h (a :: l)) (hag : ∀ x ∈ l, next' x = next x) :
    Chain null next' (next a) l :=
  hs.2.2.congr hag

/-- Unlink `a` from behind `b`. -/
lemma Chain.unlink (hs : Chain null next h (pre ++ b :: a :: post)) (hb : next' b = next a)
    (hag : ∀ x, x ∈ pre ∨ x ∈ post → next' x = next x) :
    Chain null next' h (pre ++ b :: post) := by
  obtain ⟨h₁, hn, _, _, h₂⟩ := seg_middle.mp hs
  refine seg_middle.mpr ⟨h₁.congr fun x hx => hag x (.inl hx), hn, ?_⟩
  rw [hb]
  exact h₂.congr fun x hx => hag x (.inr hx)

/-! ## Back links -/

/-- There are no links back in the empty list. -/
@[simp] lemma back_nil : Back prev ([] : List α) := trivial

/-- There are no links back in a list of one. -/
@[simp] lemma back_singleton : Back prev [a] := trivial

/-- The second element points back to the first. -/
@[simp] lemma back_cons_cons : Back prev (a :: b :: l) ↔ prev b = a ∧ Back prev (b :: l) := Iff.rfl

/-- Back links of a concatenation: both halves share the node at the seam. -/
lemma back_middle : Back prev (pre ++ a :: post) ↔ Back prev (pre ++ [a]) ∧ Back prev (a :: post) := by
  induction pre with
  | nil => simp
  | cons b pre ih =>
    cases pre with
    | nil => simp
    | cons c pre => simp only [List.cons_append, back_cons_cons] at ih ⊢; rw [ih, and_assoc]

/-- Back links are read at every node but the first. -/
lemma Back.congr (hb : Back prev l) (hag : ∀ x ∈ l.tail, prev' x = prev x) : Back prev' l := by
  induction l with
  | nil => trivial
  | cons a l ih =>
    cases l with
    | nil => trivial
    | cons b l =>
      refine ⟨(hag b List.mem_cons_self).trans hb.1, ih hb.2 fun x hx => hag x ?_⟩
      exact List.mem_cons_of_mem _ hx

/-- The links back do not depend on the first element. -/
lemma Back.tail (hb : Back prev (a :: l)) : Back prev l := by
  cases l with
  | nil => trivial
  | cons b l => exact hb.2

/-- The back link of the node behind `b`. -/
lemma Back.prev_eq (hb : Back prev (pre ++ b :: a :: post)) : prev a = b :=
  (back_middle.mp hb).2.1

/-- Put `a` in front; the old first node points back at it. -/
lemma Back.push (hb : Back prev l) (hhead : ∀ x ∈ l.head?, prev' x = a)
    (hag : ∀ x ∈ l.tail, prev' x = prev x) : Back prev' (a :: l) := by
  cases l with
  | nil => trivial
  | cons b l => exact ⟨hhead b rfl, hb.congr hag⟩

/-- Link `a` in behind `b`. -/
lemma Back.insert (hb : Back prev (pre ++ b :: post)) (ha : prev' a = b)
    (hhead : ∀ x ∈ post.head?, prev' x = a)
    (hag : ∀ x, x ∈ (pre ++ [b]).tail ∨ x ∈ post.tail → prev' x = prev x) :
    Back prev' (pre ++ b :: a :: post) := by
  obtain ⟨h₁, h₂⟩ := back_middle.mp hb
  refine back_middle.mpr ⟨h₁.congr fun x hx => hag x (.inl hx), ha, ?_⟩
  exact h₂.tail.push hhead fun x hx => hag x (.inr hx)

/-- Unlink `a` from behind `b`. -/
lemma Back.unlink (hb : Back prev (pre ++ b :: a :: post)) (hhead : ∀ x ∈ post.head?, prev' x = b)
    (hag : ∀ x, x ∈ (pre ++ [b]).tail ∨ x ∈ post.tail → prev' x = prev x) :
    Back prev' (pre ++ b :: post) := by
  obtain ⟨h₁, h₂⟩ := back_middle.mp hb
  refine back_middle.mpr ⟨h₁.congr fun x hx => hag x (.inl hx), ?_⟩
  exact h₂.2.tail.push hhead fun x hx => hag x (.inr hx)

end ToeS.Lib
