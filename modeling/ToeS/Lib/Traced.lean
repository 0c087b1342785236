import ToeS.Lib.Run

/-!
# Traced computations

A computation on a state that may fail, together with the addresses it touches on the way
(`Traced`). `Within W x s` says that the run of `x` from `s` touches addresses of `W` only, whether
it fails or not. `Local Agree x` says that `x` depends on what it touches only: from a state that
agrees with `s` there, `x` touches the same addresses and ends in the same way, and the agreement
lasts. What it means for two states to agree on some addresses is a parameter.
-/

namespace ToeS.Lib

/-- A computation that logs the addresses it touches. -/
structure Traced (ε σ α : Type) where
  log : σ → List Nat
  run : σ → Except ε (α × σ)

namespace Traced
variable {ε σ α β : Type}

instance : Monad (Traced ε σ) where
  pure a := ⟨fun _ => [], fun s => .ok (a, s)⟩
  bind x f :=
    { log := fun s => x.log s ++
        match x.run s with
        | .ok r => (f r.1).log r.2
        | .error _ => []
      run := fun s => x.run s >>= fun r => (f r.1).run r.2 }

/-- Touch the addresses `l` and read `f` of the state. -/
def load (l : List Nat) (f : σ → α) : Traced ε σ α := ⟨fun _ => l, fun s => .ok (f s, s)⟩

/-- Touch the addresses `l` and change the state by `f`. -/
def store (l : List Nat) (f : σ → σ) : Traced ε σ Unit := ⟨fun _ => l, fun s => .ok ((), f s)⟩

/-- Fail. -/
def fail (e : ε) : Traced ε σ α := ⟨fun _ => [], fun _ => .error e⟩

variable {x : Traced ε σ α} {f : α → Traced ε σ β} {s t : σ} {a : α} {l : List Nat}

/-- A value is returned in the same state. -/
@[simp] lemma run_pure : (pure a : Traced ε σ α).run s = .ok (a, s) := rfl

/-- One computation runs after the other, in the state it left. -/
@[simp] lemma run_bind : (x >>= f).run s = x.run s >>= fun r => (f r.1).run r.2 := rfl

/-- A load returns what it reads and leaves the state. -/
@[simp] lemma run_load {g : σ → α} : (load l g : Traced ε σ α).run s = .ok (g s, s) := rfl

/-- A store changes the state as it says. -/
@[simp] lemma run_store {g : σ → σ} : (store l g : Traced ε σ Unit).run s = .ok ((), g s) := rfl

/-- A failure has no result. -/
@[simp] lemma run_fail {e : ε} : (fail e : Traced ε σ α).run s = .error e := rfl

/-- A case distinction runs the branch that is taken. -/
@[simp] lemma run_ite {c : Prop} [Decidable c] {x y : Traced ε σ α} :
    (if c then x else y).run s = if c then x.run s else y.run s := by
  split <;> rfl

/-! ## What a run touches -/

/-- The run of `x` from `s` touches addresses of `W` only. -/
def Within (W : Nat → Prop) (x : Traced ε σ α) (s : σ) : Prop := ∀ i ∈ x.log s, W i

variable {W : Nat → Prop}

/-- The accesses of two computations are those of the first, and those of the second if it is reached. -/
lemma mem_log_bind {i : Nat} :
    i ∈ (x >>= f).log s ↔ i ∈ x.log s ∨ ∃ a t, x.run s = .ok (a, t) ∧ i ∈ (f a).log t := by
  show i ∈ x.log s ++ _ ↔ _
  rw [List.mem_append]
  refine or_congr_right ?_
  cases x.run s with
  | error e => simp
  | ok r => exact ⟨fun h => ⟨r.1, r.2, rfl, h⟩, fun ⟨_, _, e, h⟩ => by cases e; exact h⟩

/-- A value takes no access. -/
@[simp] lemma within_pure : Within W (pure a : Traced ε σ α) s := fun _ hi => by cases hi

/-- A failure takes no access. -/
@[simp] lemma within_fail {e : ε} : Within W (fail e : Traced ε σ α) s := fun _ hi => by cases hi

/-- A load accesses what it names. -/
@[simp] lemma within_load {g : σ → α} : Within W (load l g : Traced ε σ α) s ↔ ∀ i ∈ l, W i := Iff.rfl

/-- A store accesses what it names. -/
@[simp] lemma within_store {g : σ → σ} : Within W (store l g : Traced ε σ Unit) s ↔ ∀ i ∈ l, W i :=
  Iff.rfl

/-- Two computations stay within `W` if both do. -/
lemma within_bind :
    Within W (x >>= f) s ↔ Within W x s ∧ ∀ a t, x.run s = .ok (a, t) → Within W (f a) t := by
  unfold Within
  simp only [mem_log_bind]
  constructor
  · exact fun h => ⟨fun i hi => h i (.inl hi), fun a t hr i hi => h i (.inr ⟨a, t, hr, hi⟩)⟩
  · rintro ⟨h, h'⟩ i (hi | ⟨a, t, hr, hi⟩)
    · exact h i hi
    · exact h' a t hr i hi

/-- Where the first part returns, only one continuation counts. -/
lemma Within.bind (h : Within W x s) (hr : x.run s = .ok (a, t)) (h' : Within W (f a) t) :
    Within W (x >>= f) s := by
  refine within_bind.mpr ⟨h, fun b u hb => ?_⟩
  cases hr.symm.trans hb
  exact h'

/-- The rule for a load in front of a computation. -/
lemma Within.load_bind {g : σ → α} (hl : ∀ i ∈ l, W i) (h : Within W (f (g s)) s) :
    Within W (load l g >>= f) s :=
  Within.bind hl rfl h

/-- The rule for a store in front of a computation. -/
lemma Within.store_bind {g : σ → σ} {f : Unit → Traced ε σ β} (hl : ∀ i ∈ l, W i)
    (h : Within W (f ()) (g s)) : Within W (store l g >>= f) s :=
  Within.bind (x := store l g) hl rfl h

/-! ## What a run depends on -/

/-- Two runs end alike: with the same error, or with the same value in related states. -/
inductive Alike (R : σ → σ → Prop) : Except ε (α × σ) → Except ε (α × σ) → Prop
  | error (e : ε) : Alike R (.error e) (.error e)
  | ok {t t' : σ} (a : α) (h : R t t') : Alike R (.ok (a, t)) (.ok (a, t'))

/-- Started where `s'` agrees with `s` on all that `x` touches from `s`, `x` does the same. -/
def Local (Agree : (Nat → Prop) → σ → σ → Prop) (x : Traced ε σ α) : Prop :=
  ∀ W s s', Within W x s → Agree W s s' →
    x.log s' = x.log s ∧ Alike (Agree W) (x.run s) (x.run s')

variable {Agree : (Nat → Prop) → σ → σ → Prop}

/-- A value depends on nothing. -/
lemma local_pure : Local Agree (pure a : Traced ε σ α) := fun _ _ _ _ hag => ⟨rfl, .ok a hag⟩

/-- A failure depends on nothing. -/
lemma local_fail {e : ε} : Local Agree (fail e : Traced ε σ α) := fun _ _ _ _ _ => ⟨rfl, .error e⟩

/-- A load is local if its value depends on what it names. -/
lemma local_load {g : σ → α} (hg : ∀ W s s', (∀ i ∈ l, W i) → Agree W s s' → g s' = g s) :
    Local Agree (load l g : Traced ε σ α) := by
  refine fun W s s' hw hag => ⟨rfl, ?_⟩
  rw [run_load, run_load, hg W s s' hw hag]
  exact .ok (g s) hag

/-- A store is local if it keeps agreement on sets that hold what it names. -/
lemma local_store {g : σ → σ}
    (hg : ∀ W s s', (∀ i ∈ l, W i) → Agree W s s' → Agree W (g s) (g s')) :
    Local Agree (store l g : Traced ε σ Unit) :=
  fun W s s' hw hag => ⟨rfl, .ok () (hg W s s' hw hag)⟩

/-- Locality passes through `>>=`. -/
lemma Local.bind (hx : Local Agree x) (hf : ∀ a, Local Agree (f a)) : Local Agree (x >>= f) := by
  intro W s s' hw hag
  obtain ⟨hw₁, hw₂⟩ := within_bind.mp hw
  obtain ⟨hl, h⟩ := hx W s s' hw₁ hag
  have hlog : ∀ u, (x >>= f).log u = x.log u ++
      match x.run u with
      | .ok r => (f r.1).log r.2
      | .error _ => [] := fun _ => rfl
  rw [hlog, hlog, run_bind, run_bind, hl]
  cases hr : x.run s with
  | error e =>
    rw [hr] at h
    cases hr' : x.run s' with
    | error e' =>
      rw [hr'] at h
      cases h
      exact ⟨rfl, .error e⟩
    | ok r =>
      rw [hr'] at h
      cases h
  | ok r =>
    obtain ⟨a, t⟩ := r
    rw [hr] at h
    cases hr' : x.run s' with
    | error e' =>
      rw [hr'] at h
      cases h
    | ok r' =>
      rw [hr'] at h
      cases h with
      | ok a ht =>
        obtain ⟨hl', h'⟩ := hf a W _ _ (hw₂ a _ hr) ht
        exact ⟨congrArg _ hl', h'⟩

/-- Locality passes through a case distinction that does not look at the state. -/
lemma Local.ite {c : Prop} [Decidable c] {x y : Traced ε σ α} (hx : Local Agree x)
    (hy : Local Agree y) : Local Agree (if c then x else y) := by
  split
  · exact hx
  · exact hy

end Traced

end ToeS.Lib
