import ToeS.Trap.Service

/-!
# The timer and the scheduler

`timer_handler` calls `schedule` from inside of the interrupt, before `irq_handler` acknowledges it. A
task that `fork` made is not inside of an interrupt: when `schedule` enters it, nothing is left that
would acknowledge or set `IF`. `Dead` describes the states from there on.
-/

namespace ToeS.Irq
open Lib Lib.Pic

/-- The timer is in service, the interrupts are off, and no handler is there to return. -/
structure Dead (s : Sys) : Prop where
  place : s.place = .own
  iflag : s.iflag = false
  due : s.due = false
  isr : 0 ∈ s.pics.master.isr

/-- Interrupts come, or will when the handler returns. -/
def Live (s : Sys) : Prop := s.iflag = true ∨ s.place ≠ .own

/-- The states of a run. -/
def Reach (s : Sys) : Prop := (∃ d, Agree s d) ∨ Dead s

/-- `ticks` counts the calls of `timer_handler` since it last called `schedule`. -/
structure Ticking (s : Sys) : Prop where
  ticks : s.ticks < freq
  count : s.calls.count (.handler .timer 32) = freq * s.calls.count .schedule + s.ticks
  timer : ∀ n, s.handlers n = some .timer → n = 32

/-! ## The run up to the first call of `schedule` -/

/-- The run begins with `timer_init` and `fork`. -/
def begun : List Event := [.addIntHandler 32 .timer, .fork 1]

/-- `n` ticks that are served at once. -/
def tickRun (n : Nat) : List Event := (List.replicate n [.raise 0, .take, .ret]).flatten

/-- The state after them. -/
def ticked (n : Nat) : Sys :=
  { boot biosPics with
    handlers := Function.update (fun _ => none) 32 (some .timer)
    ticks := n
    calls := List.replicate n (.handler .timer 32)
    asleep := Function.update (fun _ => none) 1 (some .own) }

section
variable {n : Nat}

/-- The timer is registered and a task is made. -/
lemma exec_begun : exec step (boot biosPics) begun = .ok (ticked 0) := rfl

/-- Below the frequency `timer_handler` counts. -/
lemma timerHandler_lt {s : Sys} (h : s.ticks + 1 < freq) :
    timerHandler s = { s with ticks := s.ticks + 1 } := by
  simp only [freq] at h
  have hu : u32 (s.ticks + 1) = s.ticks + 1 := by
    simp only [u32]
    omega
  rw [timerHandler, hu]
  exact if_neg (by simp only [freq]; omega)

/-- The timer asks for an interrupt. -/
def tickPics : Pair := (picRemap biosPics).raise 0

/-- `irq_handler` calls `timer_handler` after `n` ticks. -/
def called (n : Nat) : Sys :=
  { ticked n with
    pics := { tickPics with master := tickPics.master.ack 0 }
    calls := List.replicate n (.handler .timer 32) ++ [.handler .timer 32]
    iflag := false
    place := .irq 32 }

/-- The interrupt that was asked for calls `timer_handler`. -/
lemma step_raised : step { ticked n with pics := tickPics } .take = .ok (timerHandler (called n)) := by
  have hinta : tickPics.inta = some (32, { tickPics with master := tickPics.master.ack 0 }) := by rfl
  rw [step, hinta]
  rfl

/-- A tick counts one up, and the handler returns. -/
lemma exec_tick (h : n + 1 < freq) :
    exec step (ticked n) [.raise 0, .take, .ret] = .ok (ticked (n + 1)) ∧
      LegalRun step Legal (ticked n) [.raise 0, .take, .ret] := by
  obtain ⟨s, hs⟩ : ∃ s, s = timerHandler (called n) := ⟨_, rfl⟩
  have hraise : step (ticked n) (.raise 0) = .ok { ticked n with pics := tickPics } := rfl
  have htake := hs ▸ step_raised (n := n)
  rw [timerHandler_lt h] at hs
  have hplace : s.place = .irq 32 := by rw [hs]; rfl
  have hret : step s .ret = .ok (ticked (n + 1)) := by
    rw [hs, ticked, List.replicate_succ']
    rfl
  refine ⟨by rw [exec_cons hraise, exec_cons htake, exec_cons hret, exec_nil], ?_⟩
  rw [legalRun_cons hraise, legalRun_cons htake, legalRun_cons hret]
  refine ⟨(by decide : (0 : Fin 16) ≠ 2), rfl, ?_, trivial⟩
  rw [Legal, hplace]
  exact nofun

/-- Ticks one after the other are counted, and the handler returns each time. -/
lemma exec_tickRun (h : n < freq) : exec step (ticked 0) (tickRun n) = .ok (ticked n) ∧
    LegalRun step Legal (ticked 0) (tickRun n) := by
  induction n with
  | zero => exact ⟨rfl, trivial⟩
  | succ n ih =>
    obtain ⟨hrun, hl⟩ := ih (by omega)
    obtain ⟨hrun', hl'⟩ := exec_tick h
    have hsucc : tickRun (n + 1) = tickRun n ++ [.raise 0, .take, .ret] := by
      rw [tickRun, List.replicate_succ', List.flatten_append, List.flatten_singleton, tickRun]
    rw [hsucc, exec_append hrun, hrun', legalRun_append hrun]
    exact ⟨rfl, hl, hl'⟩

end

/-- The run up to the first call of `schedule`. -/
def scheduleRun : List Event := begun ++ (tickRun 9999 ++ [.raise 0, .take])

/-- The state after it. -/
def scheduling : Sys :=
  { called 9999 with ticks := 0, calls := (called 9999).calls ++ [.schedule], due := true }

/-- The last of ten thousand calls `schedule`. -/
lemma exec_scheduleRun : exec step (boot biosPics) scheduleRun = .ok scheduling ∧
    LegalRun step Legal (boot biosPics) scheduleRun := by
  obtain ⟨hrun, hl⟩ := exec_tickRun (show 9999 < freq by decide)
  have htake : step { ticked 9999 with pics := tickPics } .take = .ok scheduling := step_raised
  have hraise : step (ticked 9999) (.raise 0) = .ok { ticked 9999 with pics := tickPics } := rfl
  rw [scheduleRun, exec_append exec_begun, exec_append hrun, legalRun_append exec_begun,
    legalRun_append hrun, exec_cons hraise, exec_cons htake, legalRun_cons hraise, legalRun_cons htake]
  exact ⟨rfl, by decide, hl, (by decide : (0 : Fin 16) ≠ 2), rfl, trivial⟩

section
variable {s s' : Sys} {d : Desk} {e : Event} {p : Pair} {new n : Nat} {l l' : List Event}

/-- A request does not change what the master has in service. -/
lemma raise_isr {k : Fin 16} : (p.raise k).master.isr = p.master.isr := by
  induction k using line_cases with
  | lo l => rw [Pair.raise, split_lo]
  | hi l => rw [Pair.raise, split_hi]

/-- A request that is withdrawn does not change what the master has in service. -/
lemma withdraw_isr {k : Fin 16} : (p.withdraw k).master.isr = p.master.isr := by
  induction k using line_cases with
  | lo l => rw [Pair.withdraw, split_lo]
  | hi l => rw [Pair.withdraw, split_hi]

/-! ## A task outside of any handler -/

/-- Nothing that can happen brings the interrupts back, or makes `irq_handler` run. -/
lemma Dead.step (h : Dead s) (hl : Legal s e) :
    ∃ s', Irq.step s e = .ok s' ∧ Dead s' ∧ s'.calls = s.calls := by
  have hoff : s.iflag ≠ true := by rw [h.iflag]; decide
  cases e with
  | raise k => exact ⟨_, rfl, ⟨h.place, h.iflag, h.due, raise_isr.symm ▸ h.isr⟩, rfl⟩
  | withdraw k => exact ⟨_, rfl, ⟨h.place, h.iflag, h.due, withdraw_isr.symm ▸ h.isr⟩, rfl⟩
  | take => exact absurd hl hoff
  | takeLate => exact absurd hl.1 hoff
  | ret => exact absurd h.place hl
  | addIntHandler n hn => exact ⟨_, rfl, ⟨h.place, h.iflag, h.due, h.isr⟩, rfl⟩
  | fork child => exact ⟨_, rfl, ⟨h.place, h.iflag, h.due, h.isr⟩, rfl⟩
  | swtch new => exact absurd (h.due.symm.trans hl.1) (by decide)

/-- `schedule` enters a task that `fork` made. -/
lemma Agree.dead (h : Agree s d) (hl : Legal s (.swtch new)) (hn : s.asleep new = some .own) :
    ∃ s', Irq.step s (.swtch new) = .ok s' ∧ Dead s' ∧ s'.calls = s.calls := by
  have hplace := h.due hl.1
  cases ha : d.active with
  | none =>
    rw [h.place, ha] at hplace
    cases hplace
  | some x =>
    have hx : x.vector = 32 := by
      rw [h.place, ha] at hplace
      exact Place.irq.inj hplace
    have hoff : s.iflag = false := by rw [h.iflag, ha]; rfl
    have hisr : s.pics.master.isr = {0} := by
      have hisr := congrArg Prod.fst (ha ▸ h.pics.isr)
      cases x with
      | line k =>
        have hk : k = lo 0 := Fin.ext (by simpa [Source.vector] using hx)
        rw [hk] at hisr
        exact hisr
      | spurious slave => cases slave <;> cases hx
    refine ⟨_, rfl, ⟨?_, hoff, rfl, ?_⟩, rfl⟩
    · simp only [hn, Option.getD_some]
    · simp only [hisr, Finset.mem_singleton]

/-- The only step to such a state. -/
lemma inside_or (s : Sys) (e : Event) : Inside s e ∨ ∃ new, e = .swtch new ∧ s.asleep new = some .own := by
  cases e with
  | swtch new => exact (em _).symm.imp_right fun h => ⟨new, rfl, h⟩
  | _ => exact .inl trivial

/-- A legal call that stays inside the system keeps to the desk. -/
lemma Agree.step_ok (h : Agree s d) (hl : Legal s e) (hi : Inside s e) :
    ∃ s' d', Irq.step s e = .ok s' ∧ Agree s' d' := by
  have hb := h.step ⟨hl, hi⟩
  obtain ⟨d', hd⟩ := desk_total d [e]
  obtain ⟨d', hd, -⟩ := exec_cons_ok.mp hd
  rw [hd] at hb
  generalize Irq.step s e = x at hb
  cases hb with
  | ok h' => exact ⟨_, d', rfl, h'⟩

/-- A legal call leads to a state of the run, whatever it enters. -/
lemma Reach.step (h : Reach s) (hl : Legal s e) : ∃ s', Irq.step s e = .ok s' ∧ Reach s' := by
  rcases h with ⟨d, h⟩ | h
  · rcases inside_or s e with hi | ⟨new, rfl, hn⟩
    · obtain ⟨s', d', hs, h'⟩ := h.step_ok hl hi
      exact ⟨s', hs, .inl ⟨d', h'⟩⟩
    · obtain ⟨s', hs, h', -⟩ := h.dead hl hn
      exact ⟨s', hs, .inr h'⟩
  · obtain ⟨s', hs, h', -⟩ := h.step hl
    exact ⟨s', hs, .inr h'⟩

/-- Where the system keeps to the desk, interrupts work. -/
lemma Agree.live (h : Agree s d) : Live s := by
  cases ha : d.active with
  | none =>
    refine .inl ?_
    rw [h.iflag, ha]
    rfl
  | some x =>
    refine .inr ?_
    rw [h.place, ha]
    exact nofun

/-- In a dead state they do not. -/
lemma Dead.not_live (h : Dead s) : ¬ Live s := by
  rintro (hi | hp)
  · rw [h.iflag] at hi
    cases hi
  · exact hp h.place

/-- The interrupts work in all states of a run exactly if `schedule` never enters a task that has not
been in it before. -/
theorem live_iff_inside (hm : p.master.isr = ∅) (hs : p.slave.isr = ∅) (hl : LegalRun step Legal (boot p) l) :
    Always step Live (boot p) l ↔ LegalRun step Inside (boot p) l := by
  have hboot : Agree (boot p) .idle := agree_boot hm hs
  refine always_iff (I := Reach) (fun s e h hl hlive => ?_) (.inl ⟨_, hboot⟩) hboot.live hl
  rcases h with ⟨d, h⟩ | h
  · rcases inside_or s e with hi | ⟨new, rfl, hn⟩
    · obtain ⟨s', d', hs, h'⟩ := h.step_ok hl hi
      exact ⟨s', hs, .inl ⟨d', h'⟩, iff_of_true h'.live hi⟩
    · obtain ⟨s', hs, h', -⟩ := h.dead hl hn
      exact ⟨s', hs, .inr h', iff_of_false h'.not_live fun hi => hi hn⟩
  · exact absurd hlive h.not_live

/-- A tick, and ten thousand of them with the switch to a task that `fork` made. -/
theorem live_iff_inside_switch : Always step Live (boot biosPics) [.raise 0, .take, .ret] ∧
    ¬ Always step Live (boot biosPics) (scheduleRun ++ [.swtch 1]) := by
  obtain ⟨hrun, hl⟩ := exec_scheduleRun
  have hl' : LegalRun step Legal scheduling [.swtch 1] := by decide
  refine ⟨(live_iff_inside rfl rfl (by decide)).mpr (by decide), fun hlive => ?_⟩
  have hinside := (live_iff_inside rfl rfl ((legalRun_append hrun).mpr ⟨hl, hl'⟩)).mp hlive
  exact ((legalRun_append hrun).mp hinside).2.1 rfl

/-- Once `schedule` has entered a task that `fork` made, `irq_handler` never runs again: `IF` stays
clear, and the controllers would not ask for an interrupt if it were set. -/
theorem fork_entered_dead (hm : p.master.isr = ∅) (hs : p.slave.isr = ∅)
    (hl : LegalRun step Legal (boot p) (l ++ .swtch new :: l')) (hrun : exec step (boot p) l = .ok s)
    (hn : s.asleep new = some .own) :
    ∃ s', exec step (boot p) (l ++ .swtch new :: l') = .ok s' ∧ s'.calls = s.calls ∧
      s'.iflag = false ∧ s'.pics.int = false := by
  obtain ⟨hl, hrest⟩ := (legalRun_append hrun).mp hl
  have hreach : Reach s := by
    obtain ⟨s₁, h₁, hr, -⟩ := exec_inv (I := Reach) (fun s e h hl => h.step hl) (fun _ h => h)
      (.inl ⟨_, agree_boot hm hs⟩) hl
    rwa [Except.ok.inj (hrun.symm.trans h₁)]
  rcases hreach with ⟨d, h⟩ | h
  · obtain ⟨s₁, h₁, hd, hcalls⟩ := h.dead hrest.1 hn
    obtain ⟨s', h', ⟨hd', hcalls'⟩, -⟩ := exec_inv (I := fun s => Dead s ∧ s.calls = s₁.calls)
      (fun s e h hl => by
        obtain ⟨s', hs, hd, hc⟩ := h.1.step hl
        exact ⟨s', hs, hd, hc.trans h.2⟩) (fun _ h => h) ⟨hd, rfl⟩ (hrest.2 s₁ h₁)
    refine ⟨s', ?_, hcalls'.trans hcalls, hd'.iflag, Pair.int_blocked hd'.isr⟩
    rw [exec_append hrun, exec_cons h₁, h']
  · exact absurd (h.due.symm.trans hrest.1.1) (by decide)

/-- The first switch, and a key. -/
theorem fork_entered_dead_once : ∃ s',
    exec step (boot biosPics) (scheduleRun ++ [.swtch 1, .raise 1]) = .ok s' ∧
      s'.calls = scheduling.calls ∧ s'.iflag = false ∧ s'.pics.int = false := by
  obtain ⟨hrun, hl⟩ := exec_scheduleRun
  have hl' : LegalRun step Legal scheduling [.swtch 1, .raise 1] := by decide
  exact fork_entered_dead rfl rfl ((legalRun_append hrun).mpr ⟨hl, hl'⟩) hrun rfl

/-! ## The timer -/

/-- `timer_handler` counts the call that has been noted. -/
lemma Ticking.timerHandler (h : s.ticks < freq)
    (hc : s.calls.count (.handler .timer 32) = freq * s.calls.count .schedule + s.ticks + 1)
    (ht : ∀ n, s.handlers n = some .timer → n = 32) : Ticking (timerHandler s) := by
  have hu : u32 (s.ticks + 1) = s.ticks + 1 := by
    simp only [freq] at h
    simp only [u32]
    omega
  rw [Irq.timerHandler, hu]
  split_ifs with hz
  · have hf : s.ticks + 1 = freq := by
      simp only [freq] at h hz ⊢
      omega
    refine ⟨Nat.zero_lt_succ _, ?_, ht⟩
    have hne : (Call.schedule == .handler .timer 32) = false := rfl
    simp only [List.count_append, List.count_singleton, hne, hc, beq_self_eq_true, if_true]
    grind
  · refine ⟨?_, hc, ht⟩
    simp only [freq] at h hz ⊢
    omega

/-- A call through the table keeps the count. -/
lemma Ticking.irqCall (h : Ticking s) (n : Nat) : Ticking (irqCall s n) := by
  rw [Irq.irqCall]
  cases hn : s.handlers n with
  | none =>
    refine ⟨h.ticks, ?_, h.timer⟩
    simp [h.count]
  | some f =>
    cases f with
    | other addr =>
      refine ⟨h.ticks, ?_, h.timer⟩
      simp [h.count]
    | timer =>
      obtain rfl := h.timer n hn
      refine .timerHandler h.ticks ?_ h.timer
      simp [h.count]

/-- Every step keeps the count. -/
lemma Ticking.step (h : Ticking s) (hl : Legal s e) (hs : Irq.step s e = .ok s') : Ticking s' := by
  have henter : ∀ r, enter s r = .ok s' → Ticking s' := fun r hr => by
    cases r with
    | none => cases hr
    | some r =>
      obtain rfl := Except.ok.inj hr
      refine .irqCall ?_ r.1
      exact ⟨h.ticks, h.count, h.timer⟩
  cases e with
  | take => exact henter _ hs
  | takeLate => exact henter _ hs
  | ret =>
    simp only [Irq.step] at hs
    split at hs <;> obtain rfl := Except.ok.inj hs
    · exact ⟨h.ticks, h.count, h.timer⟩
    · exact h
  | addIntHandler n f =>
    obtain rfl := Except.ok.inj hs
    refine ⟨h.ticks, h.count, fun m hm => ?_⟩
    change Function.update s.handlers n.toNat (some f) m = _ at hm
    by_cases hmn : m = n.toNat
    · subst hmn
      rw [Function.update_self] at hm
      rw [hl (Option.some.inj hm)]
      rfl
    · rw [Function.update_of_ne hmn] at hm
      exact h.timer m hm
  | raise k | withdraw k | fork child | swtch new =>
    obtain rfl := Except.ok.inj hs
    exact ⟨h.ticks, h.count, h.timer⟩

/-- In every run `schedule` is called once in 10000 calls of `timer_handler`. -/
theorem schedule_calls (hm : p.master.isr = ∅) (hs : p.slave.isr = ∅)
    (hl : LegalRun step Legal (boot p) l) :
    ∃ s, exec step (boot p) l = .ok s ∧
      s.calls.count .schedule = s.calls.count (.handler .timer 32) / freq ∧
      s.ticks = s.calls.count (.handler .timer 32) % freq := by
  have hboot : Ticking (boot p) := ⟨Nat.zero_lt_succ _, rfl, nofun⟩
  obtain ⟨s, h, ⟨-, ht⟩, -⟩ := exec_inv (I := fun s => Reach s ∧ Ticking s) (fun s e h hl => by
    obtain ⟨s', hs, hr⟩ := h.1.step hl
    exact ⟨s', hs, hr, h.2.step hl hs⟩) (fun _ h => h) ⟨.inl ⟨_, agree_boot hm hs⟩, hboot⟩ hl
  refine ⟨s, h, ?_, ?_⟩
  · rw [ht.count, Nat.mul_add_div (by decide), Nat.div_eq_of_lt ht.ticks, Nat.add_zero]
  · rw [ht.count, Nat.mul_add_mod, Nat.mod_eq_of_lt ht.ticks]

/-- Ten thousand ticks. -/
theorem schedule_calls_once :
    ∃ s, exec step (boot biosPics) scheduleRun = .ok s ∧ s.calls.count .schedule = 1 := by
  obtain ⟨hrun, hl⟩ := exec_scheduleRun
  obtain ⟨s, hs, hc, -⟩ := schedule_calls rfl rfl hl
  refine ⟨s, hs, ?_⟩
  obtain rfl := Except.ok.inj (hrun.symm.trans hs)
  have hcalls : scheduling.calls =
    List.replicate 9999 (.handler .timer 32) ++ [.handler .timer 32] ++ [.schedule] := rfl
  rw [hc, hcalls, List.count_append, List.count_append, List.count_replicate_self]
  rfl

end

end ToeS.Irq
