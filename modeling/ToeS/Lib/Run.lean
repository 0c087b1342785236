import Mathlib.Tactic

/-!
# Runs of calls

A system is a function `step` from a state and a call to a new state or a fault. `exec` makes a list
of calls one after the other. Which calls a caller may make is a predicate `legal` on the state and
the call; `LegalRun` says that each call of a list is legal when its turn comes.

Four rules carry a fact through a run. `exec_inv` is for total correctness: where every legal call
returns and keeps the invariant, so does every legal run. `exec_ok_inv` is for partial correctness:
it speaks of the legal runs that happen to return; `exec_safe` says which faults they do not end in.
`always_iff` characterises the runs that keep a property which some calls break.

`Both` relates two computations that fail alike or return related values. `exec_sim` is the rule for the
same calls made in two systems, one of which may be the purpose of the other, and `exec_both` the one for
two states of one system.
-/

namespace ToeS.Lib

variable {σ ι ε : Type} (step : σ → ι → Except ε σ) (legal : σ → ι → Prop)

/-- The state after the calls of a list. -/
def exec (s : σ) : List ι → Except ε σ
  | [] => .ok s
  | i :: l => do
    let s' ← step s i
    exec s' l

/-- Each call is legal in the state it is made in. -/
def LegalRun (s : σ) : List ι → Prop
  | [] => True
  | i :: l => legal s i ∧ ∀ s', step s i = .ok s' → LegalRun s' l

/-- Every call of the run returns, and `P` holds in every state of it. -/
def Always (P : σ → Prop) (s : σ) : List ι → Prop
  | [] => P s
  | i :: l => P s ∧ ∃ s', step s i = .ok s' ∧ Always P s' l

section
variable {ε α β : Type} {a : α} {e : ε} {f : α → Except ε β}

/-- A computation goes on with the value that was returned. -/
lemma ok_bind : (Except.ok a : Except ε α) >>= f = f a := rfl

/-- A computation does not go on after a fault. -/
lemma error_bind : (Except.error e : Except ε α) >>= f = .error e := rfl

/-- `pure` is `ok`. -/
lemma pure_ok : (pure a : Except ε α) = .ok a := rfl

end

/-- A computation that returns is made of two that do. -/
lemma bind_ok {α β : Type} {x : Except ε α} {f : α → Except ε β} {b : β} :
    x >>= f = .ok b ↔ ∃ a, x = .ok a ∧ f a = .ok b := by
  cases x with
  | error e => simp [bind, Except.bind]
  | ok a => simp [bind, Except.bind]

variable {step legal} {s s' s'' : σ} {i : ι} {l l' : List ι}

/-- The empty run stays where it is. -/
@[simp] lemma exec_nil : exec step s [] = .ok s := rfl

/-- A run goes on from where its first call has led. -/
lemma exec_cons (h : step s i = .ok s') : exec step s (i :: l) = exec step s' l := by
  simp only [exec, h, bind, Except.bind]

/-- A run fails with its first call. -/
lemma exec_cons_error {e : ε} (h : step s i = .error e) : exec step s (i :: l) = .error e := by
  simp only [exec, h, bind, Except.bind]

/-- A run that returns is made of a call that returns and a run that does. -/
lemma exec_cons_ok :
    exec step s (i :: l) = .ok s'' ↔ ∃ s', step s i = .ok s' ∧ exec step s' l = .ok s'' :=
  bind_ok

/-- A weaker condition is met by the same runs. -/
lemma LegalRun.imp {legal' : σ → ι → Prop} (h : LegalRun step legal s l)
    (hi : ∀ s i, legal s i → legal' s i) : LegalRun step legal' s l := by
  induction l generalizing s with
  | nil => trivial
  | cons i l ih => exact ⟨hi s i h.1, fun s' hs => ih (h.2 s' hs)⟩

/-- Two conditions are met together. -/
lemma LegalRun.and {legal' : σ → ι → Prop} (h : LegalRun step legal s l)
    (h' : LegalRun step legal' s l) : LegalRun step (fun s i => legal s i ∧ legal' s i) s l := by
  induction l generalizing s with
  | nil => trivial
  | cons i l ih => exact ⟨⟨h.1, h'.1⟩, fun s' hs => ih (h.2 s' hs) (h'.2 s' hs)⟩

/-- A run is legal if its first call is, and the others are from there. -/
lemma legalRun_cons (h : step s i = .ok s') :
    LegalRun step legal s (i :: l) ↔ legal s i ∧ LegalRun step legal s' l :=
  and_congr_right fun _ => ⟨fun hl => hl s' h, fun hl _ h' => Except.ok.inj (h.symm.trans h') ▸ hl⟩

/-- Nothing is asked of the calls behind one that fails. -/
lemma legalRun_cons_error {e : ε} (h : step s i = .error e) :
    LegalRun step legal s (i :: l) ↔ legal s i := by
  refine ⟨And.left, fun hl => ⟨hl, fun s' h' => ?_⟩⟩
  rw [h] at h'
  cases h'

/-- Whether a run is legal can be found out by making it. -/
instance decidableLegalRun [∀ s i, Decidable (legal s i)] :
    ∀ s l, Decidable (LegalRun step legal s l)
  | _, [] => .isTrue trivial
  | s, i :: l =>
    match h : step s i with
    | .ok s' =>
      have : Decidable (LegalRun step legal s' l) := decidableLegalRun s' l
      decidable_of_iff _ (legalRun_cons h).symm
    | .error _ => decidable_of_iff _ (legalRun_cons_error h).symm

/-- A run that goes on after it has returned. -/
lemma exec_append (h : exec step s l = .ok s') : exec step s (l ++ l') = exec step s' l' := by
  induction l generalizing s with
  | nil =>
    obtain rfl := Except.ok.inj h
    rfl
  | cons i l ih =>
    obtain ⟨s₁, h₁, h'⟩ := exec_cons_ok.mp h
    rw [List.cons_append, exec_cons h₁, ih h']

/-- A run of two parts is legal if both are. -/
lemma legalRun_append (hr : exec step s l = .ok s') :
    LegalRun step legal s (l ++ l') ↔ LegalRun step legal s l ∧ LegalRun step legal s' l' := by
  induction l generalizing s with
  | nil =>
    obtain rfl := Except.ok.inj hr
    exact ⟨fun h => ⟨trivial, h⟩, And.right⟩
  | cons i l ih =>
    obtain ⟨s₁, h₁, h'⟩ := exec_cons_ok.mp hr
    rw [List.cons_append, legalRun_cons h₁, legalRun_cons h₁, ih h', and_assoc]

/-- The last call of a legal run is legal in the state it is made in. -/
lemma LegalRun.last (h : LegalRun step legal s (l ++ [i])) (hr : exec step s l = .ok s') :
    legal s' i :=
  ((legalRun_append hr).mp h).2.1

/-- Two conditions on calls that agree as long as `I` lasts, which calls that meet the second one
keep, agree on runs. -/
theorem LegalRun.iff_of_inv {I : σ → Prop} {C C' : σ → ι → Prop} (hl : LegalRun step legal s l)
    (hC : ∀ s i, I s → legal s i → (C s i ↔ C' s i))
    (hstep : ∀ s i s', I s → legal s i → C' s i → step s i = .ok s' → I s') (hs : I s) :
    LegalRun step C s l ↔ LegalRun step C' s l := by
  induction l generalizing s with
  | nil => exact Iff.rfl
  | cons i l ih =>
    have hi := hC s i hs hl.1
    constructor
    · rintro ⟨hc, h⟩
      refine ⟨hi.mp hc, fun s' hs' => ?_⟩
      exact (ih (hl.2 s' hs') (hstep s i s' hs hl.1 (hi.mp hc) hs')).mp (h s' hs')
    · rintro ⟨hc, h⟩
      refine ⟨hi.mpr hc, fun s' hs' => ?_⟩
      exact (ih (hl.2 s' hs') (hstep s i s' hs hl.1 hc hs')).mpr (h s' hs')

/-- Where every call is legal, every run is. -/
lemma LegalRun.of_forall (h : ∀ s i, legal s i) : LegalRun step legal s l := by
  induction l generalizing s with
  | nil => trivial
  | cons i l ih => exact ⟨h s i, fun _ _ => ih⟩

/-- Where every legal call returns, leads from `I` to `J`, and `J` implies `I`, a legal run returns
in `I`, and in `J` when it made a call. -/
theorem exec_inv {I J : σ → Prop}
    (hstep : ∀ s i, I s → legal s i → ∃ s', step s i = .ok s' ∧ J s') (hJ : ∀ s, J s → I s)
    (hs : I s) (hl : LegalRun step legal s l) :
    ∃ s', exec step s l = .ok s' ∧ I s' ∧ (l ≠ [] → J s') := by
  induction l generalizing s with
  | nil => exact ⟨s, rfl, hs, fun h => absurd rfl h⟩
  | cons i l ih =>
    obtain ⟨s₁, h₁, hJ₁⟩ := hstep s i hs hl.1
    obtain ⟨s', h', hI, hJ'⟩ := ih (hJ s₁ hJ₁) (hl.2 s₁ h₁)
    refine ⟨s', by rw [exec_cons h₁, h'], hI, fun _ => ?_⟩
    by_cases hne : l = []
    · subst hne
      cases h'
      exact hJ₁
    · exact hJ' hne

/-- Where a call leads from `I` and `P` to `P` exactly when it meets the condition `C`, a run has `P`
in all its states exactly when every call meets `C`. -/
theorem always_iff {I P : σ → Prop} {C : σ → ι → Prop}
    (hstep : ∀ s i, I s → legal s i → P s → ∃ s', step s i = .ok s' ∧ I s' ∧ (P s' ↔ C s i))
    (hs : I s) (hP : P s) (hl : LegalRun step legal s l) :
    Always step P s l ↔ LegalRun step C s l := by
  induction l generalizing s with
  | nil => exact ⟨fun _ => trivial, fun _ => hP⟩
  | cons i l ih =>
    obtain ⟨s₁, h₁, hI, hC⟩ := hstep s i hs hl.1 hP
    have hdet : ∀ {s'}, step s i = .ok s' → s₁ = s' := fun h => Except.ok.inj (h₁.symm.trans h)
    constructor
    · rintro ⟨-, s', hs', h⟩
      obtain rfl := hdet hs'
      have hP₁ : P s₁ := by
        cases l with
        | nil => exact h
        | cons j l => exact h.1
      refine ⟨hC.mp hP₁, fun s' hs' => ?_⟩
      obtain rfl := hdet hs'
      exact (ih hI hP₁ (hl.2 _ hs')).mp h
    · rintro ⟨hCi, h⟩
      exact ⟨hP, s₁, h₁, (ih hI (hC.mpr hCi) (hl.2 _ h₁)).mpr (h _ h₁)⟩

/-- Where every legal call returns and keeps `I`, which implies `P`, every state of a legal run has
`P`. -/
theorem always_of_inv {I P : σ → Prop}
    (hstep : ∀ s i, I s → legal s i → ∃ s', step s i = .ok s' ∧ I s') (hP : ∀ s, I s → P s)
    (hs : I s) (hl : LegalRun step legal s l) : Always step P s l := by
  induction l generalizing s with
  | nil => exact hP s hs
  | cons i l ih =>
    obtain ⟨s₁, h₁, hI⟩ := hstep s i hs hl.1
    exact ⟨hP s hs, s₁, h₁, ih hI (hl.2 s₁ h₁)⟩

/-- A property that every legal call keeps when it returns holds after every legal run that does. -/
theorem exec_ok_inv {I : σ → Prop}
    (hstep : ∀ s i s', I s → legal s i → step s i = .ok s' → I s') (hs : I s)
    (hl : LegalRun step legal s l) (h : exec step s l = .ok s') : I s' := by
  induction l generalizing s with
  | nil =>
    cases h
    exact hs
  | cons i l ih =>
    obtain ⟨s₁, h₁, h'⟩ := exec_cons_ok.mp h
    exact ih (hstep s i s₁ hs hl.1 h₁) (hl.2 s₁ h₁) h'

/-- Where every call keeps it, after every run. -/
lemma exec_ok_all {I : σ → Prop} (hstep : ∀ s i s', I s → step s i = .ok s' → I s') (hs : I s)
    (h : exec step s l = .ok s') : I s' := by
  have hl : LegalRun step (fun _ _ => True) s l := .of_forall fun _ _ => trivial
  exact exec_ok_inv (fun s i s' hI _ h' => hstep s i s' hI h') hs hl h

/-- The rule for safety: where no legal call ends in the fault `e`, and those that return keep the
invariant, no legal run ends in `e`. -/
theorem exec_safe {I : σ → Prop} {e : ε}
    (hstep : ∀ s i, I s → legal s i → step s i ≠ .error e ∧ ∀ s', step s i = .ok s' → I s')
    (hs : I s) (hl : LegalRun step legal s l) : exec step s l ≠ .error e := by
  induction l generalizing s with
  | nil => exact nofun
  | cons i l ih =>
    obtain ⟨hne, hI⟩ := hstep s i hs hl.1
    cases h : step s i with
    | ok s₁ =>
      rw [exec_cons h]
      exact ih (hI s₁ h) (hl.2 s₁ h)
    | error e' =>
      rw [exec_cons_error h]
      exact h ▸ hne

/-! ## Two runs -/

/-- Two computations end alike: with the same error, or with related values. -/
inductive Both {α β : Type} (R : α → β → Prop) : Except ε α → Except ε β → Prop
  | error (e : ε) : Both R (.error e) (.error e)
  | ok {a : α} {b : β} (h : R a b) : Both R (.ok a) (.ok b)

section
variable {α β α' β' : Type} {R : α → β → Prop} {R' : α' → β' → Prop} {x : Except ε α} {y : Except ε β}

/-- The relation passes through `>>=`. -/
lemma Both.bind {f : α → Except ε α'} {g : β → Except ε β'} (h : Both R x y)
    (hf : ∀ a b, x = .ok a → y = .ok b → R a b → Both R' (f a) (g b)) :
    Both R' (x >>= f) (y >>= g) := by
  cases h with
  | error e => exact .error e
  | ok h => exact hf _ _ rfl rfl h

/-- A computation related to one that returns does return. -/
lemma Both.of_ok {a : α} (h : Both R x y) (hx : x = .ok a) : ∃ b, y = .ok b ∧ R a b := by
  cases h with
  | error e => cases hx
  | ok h =>
    cases hx
    exact ⟨_, rfl, h⟩

end

/-- Where every legal call keeps the states of two systems related, so does every legal run. -/
theorem exec_sim {τ : Type} {step' : τ → ι → Except ε τ} {R : σ → τ → Prop} {t : τ}
    (hstep : ∀ s t i, R s t → legal s i → Both R (step s i) (step' t i)) (hR : R s t)
    (hl : LegalRun step legal s l) : Both R (exec step s l) (exec step' t l) := by
  induction l generalizing s t with
  | nil => exact .ok hR
  | cons i l ih =>
    exact (hstep s t i hR hl.1).bind fun u u' hu _ hR' => ih hR' (hl.2 u hu)

/-- The rule for two states of one system. -/
theorem exec_both {R : σ → σ → Prop}
    (hstep : ∀ s s' i, R s s' → legal s i → Both R (step s i) (step s' i)) (hR : R s s')
    (hl : LegalRun step legal s l) : Both R (exec step s l) (exec step s' l) :=
  exec_sim hstep hR hl

/-- Where every call does. -/
lemma exec_both_all {R : σ → σ → Prop} (hstep : ∀ s s' i, R s s' → Both R (step s i) (step s' i))
    (hR : R s s') : Both R (exec step s l) (exec step s' l) := by
  have hl : LegalRun step (fun _ _ => True) s l := .of_forall fun _ _ => trivial
  exact exec_both (fun s s' i hR _ => hstep s s' i hR) hR hl

end ToeS.Lib
