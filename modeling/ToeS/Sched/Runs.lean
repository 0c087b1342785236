import ToeS.Sched.Queue

/-!
# Runs of the scheduler

Every state that `fork` and `schedule` (`kern/proc/sched.c`) reach from the end of `tasking_init` has
one of the two shapes of the ready list. The list is acyclic throughout a run exactly when every call
of `schedule` finds the running task in front (`acyclic_always_iff`), that is, when at most one call
follows the first `fork`. In no state at all is every task either running or queued once
(`not_owned`).
-/

namespace ToeS.Sched
open Lib

/-! ## Properties of the queue -/

/-- The ready list ends. -/
def Acyclic (s : Sys) : Prop := ∃ l, Chain 0 s.st.next s.st.head l

/-- A call of `schedule` finds the running task in front of the ready list. -/
def FindsCurrent (s : Sys) : Op → Prop
  | .fork _ _ => True
  | .schedule => s.st.head = s.st.current

/-- The `k`-th node of the ready list. -/
def readyAt (s : State) (k : Nat) : Nat := visit 0 s.next s.head k

/-- Every task is running or occurs exactly once in the ready list, and never both. -/
def Owned (s : Sys) : Prop :=
  ∀ t ∈ s.tasks, (s.st.current = t ∧ ∀ k, readyAt s.st k ≠ t) ∨
    (s.st.current ≠ t ∧ ∃! k, readyAt s.st k = t)

/-- One of the two shapes. -/
def Shaped (s : Sys) : Prop :=
  (∃ l, Queued s l) ∨ ∃ pre old post, Looped s pre old post

section
variable {s s' : Sys} {l pre post : List Nat} {old : Nat}

/-- A queue that is a list has no cycle. -/
lemma Queued.acyclic (hq : Queued s l) : Acyclic s := ⟨l, hq.chain⟩

/-- A queue with a loop has a cycle. -/
lemma Looped.not_acyclic (hs : Looped s pre old post) : ¬ Acyclic s := fun ⟨l, hl⟩ =>
  hs.no_chain l hl

/-- A queued running task is running and queued. -/
lemma Queued.not_owned (hq : Queued s l) : ¬ Owned s := by
  intro ho
  obtain ⟨l₁, l₂, hl⟩ := List.append_of_mem hq.cur
  have hat : readyAt s.st l₁.length = s.st.current := (seg_middle.mp (hl ▸ hq.chain)).1.visit
  rcases ho _ ((hq.mem_iff _).mpr hq.cur) with ⟨-, h⟩ | ⟨h, -⟩
  · exact h _ hat
  · exact h rfl

/-- A task on a loop occurs over and over. -/
lemma Looped.not_owned (hs : Looped s pre old post) : ¬ Owned s := by
  intro ho
  have hmem : old ∈ pre ++ old :: post := by simp
  have h₁ : readyAt s.st pre.length = old := hs.lead.visit
  have h₂ : readyAt s.st (pre ++ old :: post).length = old :=
    (seg_append.mpr ⟨old, hs.lead, hs.loop⟩).visit
  rcases ho old ((hs.mem_iff old).mpr (.inr hmem)) with ⟨h, -⟩ | ⟨-, k, -, hk⟩
  · exact hs.cur (h ▸ hmem)
  · have := (hk _ h₁).trans (hk _ h₂).symm
    rw [List.length_append, List.length_cons] at this
    omega

/-! ## One call -/

/-- A call that returns leads to one of the two shapes again. -/
lemma Shaped.step {op : Op} (hs : Shaped s) (hl : Legal s op) (hrun : step s op = .ok s') :
    Shaped s' := by
  have hdet : ∀ {s''}, Sched.step s op = .ok s'' → s'' = s' := fun h =>
    Except.ok.inj (h.symm.trans hrun)
  rcases hs with ⟨l, hq⟩ | ⟨pre, old, post, hs⟩
  · cases op with
    | fork child mem =>
      obtain ⟨s'', h, hq', -⟩ := hq.fork hl
      exact .inl ⟨_, hdet h ▸ hq'⟩
    | schedule =>
      cases l with
      | nil => exact absurd hq.cur List.not_mem_nil
      | cons a l =>
        by_cases ha : a = s.st.current
        · subst ha
          obtain ⟨s'', h, hq', -⟩ := hq.schedule_self
          exact .inl ⟨_, hdet h ▸ hq'⟩
        · obtain ⟨s'', pre, post, h, hs'⟩ := hq.schedule_other ha
          exact .inr ⟨_, _, _, hdet h ▸ hs'⟩
  · cases op with
    | fork child mem => exact absurd hrun (hs.fork hl)
    | schedule => exact .inl (hs.schedule hrun)

/-- While the list ends, the condition says whether it still ends after the next call. -/
lemma acyclic_step {op : Op} (hs : Shaped s) (hl : Legal s op) (ha : Acyclic s) :
    ∃ s', step s op = .ok s' ∧ Shaped s' ∧ (Acyclic s' ↔ FindsCurrent s op) := by
  rcases hs with ⟨l, hq⟩ | ⟨pre, old, post, hs⟩
  · cases op with
    | fork child mem =>
      obtain ⟨s', h, hq', -⟩ := hq.fork hl
      exact ⟨s', h, .inl ⟨_, hq'⟩, iff_of_true hq'.acyclic trivial⟩
    | schedule =>
      cases l with
      | nil => exact absurd hq.cur List.not_mem_nil
      | cons a l =>
        have hhead : s.st.head = a := hq.chain.1
        by_cases h : a = s.st.current
        · subst h
          obtain ⟨s', h, hq', -⟩ := hq.schedule_self
          exact ⟨s', h, .inl ⟨_, hq'⟩, iff_of_true hq'.acyclic hhead⟩
        · obtain ⟨s', pre, post, hrun, hs'⟩ := hq.schedule_other h
          exact ⟨s', hrun, .inr ⟨_, _, _, hs'⟩,
            iff_of_false hs'.not_acyclic fun e => h (hhead.symm.trans e)⟩
  · exact absurd ha hs.not_acyclic

end

/-! ## Runs -/

/-- `tasking_init` queues the task it makes the running one. -/
lemma boot_spec {s₀ : State} {init mem : Nat} (h0 : init ≠ 0) (hb : init < 4294967296) :
    ∃ s, boot s₀ init mem = .ok s ∧ Queued s [init] ∧ s.st.current = init := by
  obtain ⟨st, est⟩ : ∃ st, st = { (createTask { s₀ with head := 0 } init).modify init
      (fun t => { t with mem := mem }) with current := init } := ⟨_, rfl⟩
  have hhead : st.head = 0 := by rw [est]; rfl
  have hnext : st.next init = 0 := by
    rw [est]
    simp [State.next, State.modify, createTask]
  refine ⟨⟨{ st with head := init }, [init]⟩, ?_, ⟨⟨rfl, h0, hnext⟩, ?_, fun t => Iff.rfl, ?_⟩, ?_⟩
  · show (taskingInit s₀ init mem >>= fun st => pure (⟨st, [init]⟩ : Sys)) = _
    rw [taskingInit, ← est, addTask, if_pos hhead]
    rfl
  · rw [est]
    exact List.mem_singleton_self _
  · intro t ht
    rwa [List.mem_singleton.mp ht]
  · rw [est]

section
variable {s₀ : State} {init mem : Nat} {ops : List Op}

/-- From the end of `tasking_init`: in a run of `fork` and `schedule` every call returns and the
ready list always ends exactly when each `schedule` finds the running task in front. -/
theorem acyclic_always_iff (h0 : init ≠ 0) (hb : init < 4294967296) :
    ∃ s, boot s₀ init mem = .ok s ∧ (LegalRun step Legal s ops →
      (Always step Acyclic s ops ↔ LegalRun step FindsCurrent s ops)) := by
  obtain ⟨s, hboot, hq, -⟩ := @boot_spec s₀ init mem h0 hb
  exact ⟨s, hboot, always_iff (fun _ _ => acyclic_step) (.inl ⟨_, hq⟩) hq.acyclic⟩

/-- From the end of `tasking_init`: whatever state `fork` and `schedule` reach, some task is running
and queued, or queued more than once. -/
theorem never_owned (h0 : init ≠ 0) (hb : init < 4294967296) :
    ∃ s, boot s₀ init mem = .ok s ∧ (LegalRun step Legal s ops →
      ∀ s', exec step s ops = .ok s' → ¬ Owned s') := by
  obtain ⟨s, hboot, hq, -⟩ := @boot_spec s₀ init mem h0 hb
  refine ⟨s, hboot, fun hl s' hrun => ?_⟩
  have hs' : Shaped s' :=
    exec_ok_inv (I := Shaped) (fun _ _ _ hs => hs.step) (.inl ⟨_, hq⟩) hl hrun
  rcases hs' with ⟨l, hq⟩ | ⟨pre, old, post, hs⟩
  · exact hq.not_owned
  · exact hs.not_owned

/-- Globals before `tasking_init`. -/
def blank : State := ⟨fun _ => ⟨0, 0, 0, 0, 0⟩, 0, 0, 0⟩

/-- One child, and two calls of `schedule`. -/
def oneChild : List Op := [.fork 16 0, .schedule, .schedule]

/-- A run with one fork is legal. -/
lemma legal_oneChild {s : Sys} (h : boot blank 8 0 = .ok s) : LegalRun step Legal s oneChild := by
  obtain ⟨s', hboot, hq, -⟩ := @boot_spec blank 8 0 (by decide) (by decide)
  obtain rfl : s' = s := Except.ok.inj (hboot.symm.trans h)
  have hl : Legal s' (.fork 16 0) := by
    refine ⟨by decide, by decide, fun h => ?_⟩
    have := (hq.mem_iff 16).mp h
    simp at this
  exact ⟨hl, fun _ _ => ⟨trivial, fun _ _ => ⟨trivial, fun _ _ => trivial⟩⟩⟩

/-- A fork and two switches. -/
theorem acyclic_always_iff_oneChild :
    ∃ s, boot blank 8 0 = .ok s ∧
      (Always step Acyclic s oneChild ↔ LegalRun step FindsCurrent s oneChild) := by
  obtain ⟨s, hboot, h⟩ := @acyclic_always_iff blank 8 0 oneChild (by decide) (by decide)
  exact ⟨s, hboot, h (legal_oneChild hboot)⟩

/-- The running task is queued all the time. -/
theorem never_owned_oneChild :
    ∃ s, boot blank 8 0 = .ok s ∧ ∀ s', exec step s oneChild = .ok s' → ¬ Owned s' := by
  obtain ⟨s, hboot, h⟩ := @never_owned blank 8 0 oneChild (by decide) (by decide)
  exact ⟨s, hboot, h (legal_oneChild hboot)⟩

/-- With one child, the second call of `schedule` leaves a ready list without end. -/
theorem not_acyclic_oneChild :
    ∃ s, boot blank 8 0 = .ok s ∧ LegalRun step Legal s oneChild ∧
      ∃ s', exec step s oneChild = .ok s' ∧ ¬ Acyclic s' := by
  obtain ⟨s, hboot, hq, hcur⟩ := @boot_spec blank 8 0 (by decide) (by decide)
  have hl := legal_oneChild hboot
  obtain ⟨s₁, h₁, hq₁, hcur₁⟩ := hq.fork hl.1
  rw [hcur] at hcur₁
  obtain ⟨s₂, h₂, hq₂, hcur₂⟩ := Queued.schedule_self (s := s₁) (l := [16]) (by rw [hcur₁]; exact hq₁)
  rw [hcur₁] at hq₂ hcur₂
  obtain ⟨s₃, pre, post, h₃, hs₃⟩ := hq₂.schedule_other (by rw [hcur₂]; decide)
  refine ⟨s, hboot, hl, s₃, ?_, hs₃.not_acyclic⟩
  rw [oneChild, exec_cons h₁, exec_cons h₂, exec_cons h₃]
  rfl

/-- The first task is running and queued from the start. -/
theorem not_owned_at_start :
    ∃ s, boot blank 8 0 = .ok s ∧ ¬ Owned s := by
  obtain ⟨s, hboot, hq, -⟩ := @boot_spec blank 8 0 (by decide) (by decide)
  exact ⟨s, hboot, hq.not_owned⟩

end

end ToeS.Sched
