import ToeS.Sched.Defs
import ToeS.Lib.Chain
import ToeS.Lib.Run

/-!
# The ready list over runs

`tasking_init` (`kern/proc/sched.c`) puts the running task into the ready list, which `schedule`
assumes it is not in. From then on the list has one of two shapes. In a `Queued` state it ends, and
the running task is one of its nodes. When `schedule` takes a first node that is not the running
task, the running task is linked in a second time and the list becomes a loop (`Looped`). A call of
`add_task` on such a list hangs, except where the first node is the one the loop comes back to: taking
it out opens the loop again.
-/

namespace ToeS.Sched
open Lib

/-! ## The functions on a list that ends, and on one that does not -/

section
variable {s : State} {tsk tmp n : Nat} {l : List Nat}

/-- A task that is modified has the link it gets. -/
@[simp] lemma next_modify_self {f : Task → Task} :
    (s.modify tsk f).next tsk = (f (s.task tsk)).next := by
  simp [State.next, State.modify]

/-- Modifying a task leaves the links of the others. -/
lemma next_modify_ne {f : Task → Task} {t : Nat} (h : t ≠ tsk) :
    (s.modify tsk f).next t = s.next t := by
  simp [State.next, State.modify, h]

/-- A new task leaves the links of the others. -/
lemma next_createTask_ne {t : Nat} (h : t ≠ tsk) : (createTask s tsk).next t = s.next t := by
  simp [State.next, State.modify, createTask, h]

/-- The loop of `add_task` finds the last node. -/
lemma lastTask_spec (hc : Chain 0 s.next tmp (l ++ [tsk])) (hn : l.length < n) :
    lastTask s n tmp = .ok tsk := by
  induction l generalizing tmp n with
  | nil =>
    obtain ⟨rfl, -, hnext⟩ := hc
    obtain ⟨n, rfl⟩ := Nat.exists_eq_succ_of_ne_zero (Nat.ne_zero_of_lt hn)
    have hnext : s.next tmp = 0 := hnext
    rw [lastTask, if_neg (by simp [hnext])]
  | cons a l ih =>
    obtain ⟨rfl, -, hc⟩ := hc
    obtain ⟨n, rfl⟩ := Nat.exists_eq_succ_of_ne_zero (Nat.ne_zero_of_lt hn)
    have hc : Chain 0 s.next (s.next tmp) (l ++ [tsk]) := hc
    have hne : s.next tmp ≠ 0 := fun h0 => by
      have := hc.head_eq_null.mp h0
      simp at this
    rw [lastTask, if_pos hne]
    exact ih hc (Nat.lt_of_succ_lt_succ hn)

/-- Where the loop of `add_task` ends, the list does. -/
lemma lastTask_ok {t : Nat} (h : lastTask s n tmp = .ok t) (h0 : tmp ≠ 0) :
    ∃ l, Chain 0 s.next tmp l := by
  induction n generalizing tmp with
  | zero => cases h
  | succ n ih =>
    rw [lastTask] at h
    split at h
    · obtain ⟨l, hl⟩ := ih h ‹_›
      exact ⟨tmp :: l, rfl, h0, hl⟩
    · have hnext : s.next tmp = 0 := not_not.mp ‹_›
      exact ⟨[tmp], rfl, h0, hnext⟩

/-- `add_task` on a list that ends: the link of its last node is set. -/
lemma addTask_last {b : Nat} (hc : Chain 0 s.next s.head (l ++ [b]))
    (hl : ∀ a ∈ l ++ [b], a < 4294967296) :
    addTask s tsk = .ok (s.modify b fun t => { t with next := tsk }) := by
  have h0 : s.head ≠ 0 := fun h0 => by
    have := hc.head_eq_null.mp h0
    simp at this
  have hlen := hc.length_lt (by decide) hl
  rw [List.length_append, List.length_singleton] at hlen
  rw [addTask, if_neg h0, lastTask_spec hc (by unfold chainFuel; omega)]
  rfl

/-- `add_task` on a list that ends, and that the task is not in. -/
lemma addTask_spec (hc : Chain 0 s.next s.head l) (hl : ∀ a ∈ l, a < 4294967296) (h0 : tsk ≠ 0)
    (hm : tsk ∉ l) (hnext : s.next tsk = 0) :
    ∃ s', addTask s tsk = .ok s' ∧ Chain 0 s'.next s'.head (l ++ [tsk]) ∧
      s'.current = s.current := by
  rcases List.eq_nil_or_concat l with rfl | ⟨l, b, rfl⟩
  · refine ⟨{ s with head := tsk }, ?_, ⟨rfl, h0, hnext⟩, rfl⟩
    rw [addTask, if_pos (hc.head_eq_null.mpr rfl)]
  · rw [List.concat_eq_append] at *
    refine ⟨_, addTask_last hc hl, ?_, rfl⟩
    have hb : tsk ≠ b := by
      rintro rfl
      simp at hm
    have hlast : s.next b = 0 := (seg_middle.mp hc).2.2
    rw [List.append_assoc, List.singleton_append]
    refine Chain.insert hc h0 next_modify_self ?_ ?_
    · rw [next_modify_ne hb, hnext, hlast]
    · rintro x (hx | hx)
      · refine next_modify_ne ?_
        rintro rfl
        exact (List.nodup_append.mp hc.nodup).2.2 _ hx _ (by simp) rfl
      · cases hx

/-- `add_task` on a list that does not end. -/
lemma addTask_diverges (h0 : s.head ≠ 0) (hc : ∀ l, ¬ Chain 0 s.next s.head l) :
    ∀ s', addTask s tsk ≠ .ok s' := by
  intro s' h
  rw [addTask, if_neg h0] at h
  cases hlast : lastTask s chainFuel s.head with
  | error e =>
    rw [hlast] at h
    cases h
  | ok t =>
    obtain ⟨l, hl⟩ := lastTask_ok hlast h0
    exact hc l hl

end

/-! ## The two shapes -/

/-- The list is `l` and ends; it holds all tasks, the running one among them. -/
structure Queued (s : Sys) (l : List Nat) : Prop where
  chain : Chain 0 s.st.next s.st.head l
  cur : s.st.current ∈ l
  mem_iff : ∀ t, t ∈ s.tasks ↔ t ∈ l
  bound : ∀ t ∈ l, t < 4294967296

/-- The list runs through `pre`, and then through `old` and `post` for ever; the running task is the
one that is not in it. -/
structure Looped (s : Sys) (pre : List Nat) (old : Nat) (post : List Nat) : Prop where
  lead : Seg 0 s.st.next s.st.head pre old
  loop : Seg 0 s.st.next old (old :: post) old
  nodup : (pre ++ old :: post).Nodup
  cur : s.st.current ∉ pre ++ old :: post
  cur_next : s.st.next s.st.current = 0
  cur_ne : s.st.current ≠ 0
  mem_iff : ∀ t, t ∈ s.tasks ↔ t = s.st.current ∨ t ∈ pre ++ old :: post
  bound : ∀ t, t = s.st.current ∨ t ∈ pre ++ old :: post → t < 4294967296

/-- A queue with a loop is no list. -/
lemma Looped.no_chain {s : Sys} {pre post : List Nat} {old : Nat} (hs : Looped s pre old post)
    (l : List Nat) : ¬ Chain 0 s.st.next s.st.head l := by
  intro hc
  obtain ⟨r, -, hr⟩ := hc.drop hs.lead
  exact hs.loop.no_chain r hr

/-- A queue with a loop is not empty. -/
lemma Looped.head_ne {s : Sys} {pre post : List Nat} {old : Nat} (hs : Looped s pre old post) :
    s.st.head ≠ 0 := fun h0 => hs.no_chain [] h0

section
variable {s s' : Sys} {l pre post : List Nat} {a old child mem : Nat}

/-- `fork` puts the child at the end. -/
lemma Queued.fork (hq : Queued s l) (hl : Legal s (.fork child mem)) :
    ∃ s', step s (.fork child mem) = .ok s' ∧ Queued s' (l ++ [child]) ∧
      s'.st.current = s.st.current := by
  obtain ⟨h0, hb, hm⟩ := hl
  rw [hq.mem_iff] at hm
  obtain ⟨st, est⟩ : ∃ st, st = ((createTask s.st child).modify child fun t =>
      { t with parent := s.st.current }).modify child fun t => { t with mem := mem } := ⟨_, rfl⟩
  have hne : ∀ t, t ≠ child → st.next t = s.st.next t := by
    intro t ht
    rw [est, next_modify_ne ht, next_modify_ne ht, next_createTask_ne ht]
  have hchild : st.next child = 0 := by
    rw [est]
    simp [State.next, State.modify, createTask]
  have hc : Chain 0 st.next st.head l := by
    rw [show st.head = s.st.head by rw [est]; rfl]
    exact hq.chain.congr fun x hx => hne x (by rintro rfl; exact hm hx)
  obtain ⟨st', hrun, hc', hcur⟩ := addTask_spec hc hq.bound h0 hm hchild
  have hcur' : st'.current = s.st.current := by rw [hcur, est]; rfl
  refine ⟨⟨st', child :: s.tasks⟩, ?_, ⟨hc', ?_, fun t => ?_, fun t ht => ?_⟩, hcur'⟩
  · show (Sched.fork s.st child mem >>= fun x => pure (⟨x.2, child :: s.tasks⟩ : Sys)) = _
    have hf : Sched.fork s.st child mem = addTask st child >>= fun s =>
        pure (if (s.task s.current).tid = (s.task child).tid then 0 else (s.task child).tid, s) := by
      rw [est]
      rfl
    rw [hf, hrun]
    rfl
  · show st'.current ∈ _
    rw [hcur']
    exact List.mem_append_left _ hq.cur
  · show t ∈ child :: s.tasks ↔ _
    rw [List.mem_cons, hq.mem_iff, List.mem_append, List.mem_singleton, or_comm]
  · rcases List.mem_append.mp ht with ht | ht
    · exact hq.bound t ht
    · rwa [List.mem_singleton.mp ht]

/-- What `schedule` does once `pop_task` has a task: the call of `add_task` decides. -/
lemma schedule_eq (h0 : s.st.current ≠ 0) (hh : s.st.head ≠ 0) :
    ∃ st, st.head = s.st.next s.st.head ∧ st.current = s.st.current ∧
      (∀ t, t ≠ s.st.head → st.next t = s.st.next t) ∧ st.next s.st.head = 0 ∧
      step s .schedule = addTask st s.st.current >>= fun st =>
        .ok { s with st := { st with current := s.st.head } } := by
  obtain ⟨st, est⟩ : ∃ st, st = ({ s.st with head := s.st.next s.st.head } : State).modify s.st.head
      fun t => { t with next := 0, prev := 0 } := ⟨_, rfl⟩
  have hpop : popTask s.st = (s.st.head, st) := by rw [popTask, if_neg hh, est]
  have hcur : st.current = s.st.current := by rw [est]; rfl
  refine ⟨st, by rw [est]; rfl, hcur, fun t ht => ?_, by rw [est]; exact next_modify_self, ?_⟩
  · rw [est, next_modify_ne ht]
    rfl
  · show (schedule s.st >>= fun st => pure { s with st := st }) = _
    rw [schedule, if_neg h0, hpop]
    simp only [bind, Except.bind, pure, Except.pure, if_neg hh, hcur]
    cases addTask st s.st.current with
    | error e => rfl
    | ok st' => rfl

/-- `schedule` with the running task first moves it to the end. -/
lemma Queued.schedule_self (hq : Queued s (s.st.current :: l)) :
    ∃ s', step s .schedule = .ok s' ∧ Queued s' (l ++ [s.st.current]) ∧
      s'.st.current = s.st.current := by
  obtain ⟨hhead, h0, hc⟩ := hq.chain
  have hnd := hq.chain.nodup
  rw [List.nodup_cons] at hnd
  obtain ⟨st, h₁, h₂, h₃, h₄, hrun⟩ := schedule_eq h0 (by rwa [hhead])
  rw [hhead] at h₁ h₃ h₄ hrun
  have hc' : Chain 0 st.next st.head l := by
    rw [h₁]
    exact hc.congr fun x hx => h₃ x (by rintro rfl; exact hnd.1 hx)
  obtain ⟨st', hadd, hc'', -⟩ := addTask_spec hc'
    (fun t ht => hq.bound t (List.mem_cons_of_mem _ ht)) h0 hnd.1 h₄
  rw [hadd] at hrun
  refine ⟨_, hrun, ⟨hc'', ?_, fun t => ?_, fun t ht => hq.bound t ?_⟩, rfl⟩
  · exact List.mem_append_right _ (List.mem_singleton_self _)
  · show t ∈ s.tasks ↔ _
    rw [hq.mem_iff, List.mem_cons, List.mem_append, List.mem_singleton, or_comm]
  · rwa [List.mem_append, List.mem_singleton, or_comm, ← List.mem_cons] at ht

/-- `schedule` with another task first closes the list to a loop. -/
lemma Queued.schedule_other (hq : Queued s (a :: l)) (ha : a ≠ s.st.current) :
    ∃ s' pre post, step s .schedule = .ok s' ∧ Looped s' pre s.st.current post := by
  obtain ⟨hhead, h0, hc⟩ := hq.chain
  have hnd := List.nodup_cons.mp hq.chain.nodup
  have hcur : s.st.current ∈ l := by
    rcases List.mem_cons.mp hq.cur with h | h
    · exact absurd h.symm ha
    · exact h
  obtain ⟨st, h₁, h₂, h₃, h₄, hrun⟩ :=
    schedule_eq (hq.chain.ne_null hq.cur) (by rwa [hhead])
  rw [hhead] at h₁ h₃ h₄ hrun
  have hc' : Chain 0 st.next st.head l := by
    rw [h₁]
    exact hc.congr fun x hx => h₃ x (by rintro rfl; exact hnd.1 hx)
  -- the list behind the first node, cut at its last node and at the running task
  obtain ⟨l₁, b, hl₁⟩ : ∃ l₁ b, l = l₁ ++ [b] :=
    ⟨_, _, (List.dropLast_append_getLast (List.ne_nil_of_mem hcur)).symm⟩
  obtain ⟨pre, post, hl₂⟩ := List.append_of_mem hcur
  have hbnd : ∀ t ∈ l, t < 4294967296 := fun t ht => hq.bound t (List.mem_cons_of_mem _ ht)
  rw [addTask_last (hl₁ ▸ hc') (hl₁ ▸ hbnd)] at hrun
  obtain ⟨r, hr⟩ : ∃ r, s.st.current :: post = r ++ [b] := by
    rcases List.eq_nil_or_concat post with rfl | ⟨post, c, rfl⟩
    · refine ⟨[], ?_⟩
      rw [hl₁] at hl₂
      rw [← (List.append_inj' hl₂ rfl).2, List.nil_append]
    · rw [List.concat_eq_append] at hl₂ ⊢
      refine ⟨s.st.current :: post, ?_⟩
      have : l₁ ++ [b] = (pre ++ s.st.current :: post) ++ [c] := by rw [← hl₁, hl₂]; simp
      rw [(List.append_inj' this rfl).2]
      rfl
  have hnd₂ := hnd.2
  rw [hl₂] at hnd₂ hc'
  have hb : b ∈ s.st.current :: post := hr ▸ by simp
  obtain ⟨hlead, hn, hloop⟩ := seg_middle.mp hc'
  have hcycle : Chain 0 st.next s.st.current (r ++ [b]) := hr ▸ ⟨rfl, hn, hloop⟩
  have hne : ∀ x, x ≠ b →
      (st.modify b fun t => { t with next := s.st.current }).next x = st.next x :=
    fun x hx => next_modify_ne hx
  have hb_next : (st.modify b fun t => { t with next := s.st.current }).next b = s.st.current :=
    next_modify_self
  refine ⟨_, pre, post, hrun, ?_, ?_, hnd₂, ?_, ?_, h0, fun t => ?_, fun t ht => ?_⟩
  · refine hlead.congr fun x hx => hne x ?_
    rintro rfl
    exact (List.nodup_append.mp hnd₂).2.2 _ hx _ hb rfl
  · rw [hr]
    refine hcycle.redirect hb_next fun x hx => hne x ?_
    rintro rfl
    exact (List.nodup_append.mp (hr ▸ (List.nodup_append.mp hnd₂).2.1)).2.2 _ hx _
      (by simp) rfl
  · rw [← hl₂]
    exact hnd.1
  · refine (hne a ?_).trans h₄
    rintro rfl
    exact hnd.1 (hl₂ ▸ List.mem_append_right _ hb)
  · show t ∈ s.tasks ↔ _
    rw [hq.mem_iff, List.mem_cons, hl₂]
  · rw [← hl₂, ← List.mem_cons] at ht
    exact hq.bound t ht

/-- A list without end keeps `fork` from returning. -/
lemma Looped.fork (hs : Looped s pre old post) (hl : Legal s (.fork child mem)) :
    step s (.fork child mem) ≠ .ok s' := by
  obtain ⟨-, -, hm⟩ := hl
  have hm : child ∉ pre ++ old :: post := fun h => hm ((hs.mem_iff child).mpr (.inr h))
  obtain ⟨st, est⟩ : ∃ st, st = ((createTask s.st child).modify child fun t =>
      { t with parent := s.st.current }).modify child fun t => { t with mem := mem } := ⟨_, rfl⟩
  have hne : ∀ t ∈ pre ++ old :: post, st.next t = s.st.next t := by
    intro t ht
    have htc : t ≠ child := by rintro rfl; exact hm ht
    rw [est, next_modify_ne htc, next_modify_ne htc, next_createTask_ne htc]
  have hhead : st.head = s.st.head := by rw [est]; rfl
  have hno : ∀ l, ¬ Chain 0 st.next st.head l := by
    intro l hc
    obtain ⟨r, -, hr⟩ := hc.drop (hhead ▸ hs.lead.congr fun x hx => hne x (by simp [hx]))
    exact (hs.loop.congr fun x hx => hne x (List.mem_append_right _ hx)).no_chain r hr
  intro h
  have hf : Sched.fork s.st child mem = addTask st child >>= fun s =>
      pure (if (s.task s.current).tid = (s.task child).tid then 0 else (s.task child).tid, s) := by
    rw [est]
    rfl
  have h : (Sched.fork s.st child mem >>= fun x => pure (⟨x.2, child :: s.tasks⟩ : Sys)) = .ok s' := h
  rw [hf] at h
  cases hadd : addTask st child with
  | error e =>
    rw [hadd] at h
    cases h
  | ok st' => exact addTask_diverges (hhead ▸ hs.head_ne) hno _ hadd

/-- `schedule` opens the loop when the first node is on it, and does not return otherwise. -/
lemma Looped.schedule (hs : Looped s pre old post) (hrun : step s .schedule = .ok s') :
    ∃ l, Queued s' l := by
  obtain ⟨st, h₁, h₂, h₃, h₄, hstep⟩ := schedule_eq hs.cur_ne hs.head_ne
  rw [hstep] at hrun
  cases pre with
  | nil =>
    have hhead : s.st.head = old := hs.lead
    obtain ⟨-, h0, hseg⟩ := hs.loop
    rw [hhead] at h₁ h₃ h₄ hrun
    have hnd : old ∉ post := (List.nodup_cons.mp hs.nodup).1
    have hc : Chain 0 st.next st.head (post ++ [old]) := by
      rw [h₁]
      refine seg_middle.mpr ⟨hseg.congr fun x hx => h₃ x ?_, h0, h₄⟩
      rintro rfl
      exact hnd hx
    have hswap : ∀ t, t ∈ post ++ [old] ↔ t ∈ [] ++ old :: post := by
      intro t
      simp [or_comm]
    have hcold : s.st.current ≠ old := by
      intro e
      exact hs.cur (e ▸ by simp)
    obtain ⟨st', hadd, hc', -⟩ := addTask_spec hc
      (fun t ht => hs.bound t (.inr ((hswap t).mp ht))) hs.cur_ne
      (mt (hswap _).mp hs.cur) ((h₃ _ hcold).trans hs.cur_next)
    rw [hadd] at hrun
    cases hrun
    refine ⟨_, hc', ?_, fun t => ?_, fun t ht => ?_⟩
    · simp
    · show t ∈ s.tasks ↔ _
      rw [hs.mem_iff, List.mem_append (s := post ++ [old]), hswap, List.mem_singleton, or_comm]
    · rw [List.mem_append, hswap, List.mem_singleton, or_comm] at ht
      exact hs.bound t ht
  | cons b pre =>
    obtain ⟨hhead, -, hseg⟩ := hs.lead
    rw [hhead] at h₁ h₃
    have hnd : b ∉ pre ++ old :: post := (List.nodup_cons.mp hs.nodup).1
    have hne : ∀ x ∈ pre ++ old :: post, st.next x = s.st.next x := fun x hx =>
      h₃ x (by rintro rfl; exact hnd hx)
    have hno : ∀ l, ¬ Chain 0 st.next st.head l := by
      intro l hc
      rw [h₁] at hc
      obtain ⟨r, -, hr⟩ := hc.drop (hseg.congr fun x hx => hne x (by simp [hx]))
      exact (hs.loop.congr fun x hx => hne x (List.mem_append_right _ hx)).no_chain r hr
    have h0 : st.head ≠ 0 := fun h0 => hno [] h0
    cases hadd : addTask st s.st.current with
    | error e =>
      rw [hadd] at hrun
      cases hrun
    | ok st' => exact absurd hadd (addTask_diverges h0 hno st')

end

end ToeS.Sched
