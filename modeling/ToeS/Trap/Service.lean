import ToeS.Trap.Dispatch

/-!
# One interrupt at a time

After `pic_remap` the controllers, the stubs and `irq_handler` together are a `Desk`, as long as
`schedule` goes only to tasks that it was called in before: the vector of each call is that of the first
request that waits, and no request waits when the processor has nothing in service without the
controllers saying so. `Agree` holds what is in service in the controllers against what is served;
`next_pending` is the argument about the two levels of priority.
-/

namespace ToeS.Irq
open Lib Lib.Pic

/-- The lines in service in the master and in the slave. -/
def Source.inService : Source → Finset Line × Finset Line
  | .line k => split (fun l => ({l}, ∅)) (fun l => ({2}, {l})) k
  | .spurious false => (∅, ∅)
  | .spurious true => ({2}, ∅)

/-- What is in service, if anything is. -/
def inService : Option Source → Finset Line × Finset Line
  | some x => x.inService
  | none => (∅, ∅)

/-- The vectors of the calls of `irq_handler`. -/
def Call.vector : Call → Option Nat
  | .handler _ n | .kprintf _ n => some n
  | .schedule => none

/-- The controllers as `pic_remap` sets them. -/
structure Remapped (p : Pair) : Prop where
  cascaded : p.Cascaded
  master : p.master.base = 0x20
  slave : p.slave.base = 0x28
  masterMask : p.master.imr = ∅
  slaveMask : p.slave.imr = ∅

/-- The controllers have the requests `S`, and what is in service is `active`. -/
structure Holds (p : Pair) (S : Finset (Fin 16)) (active : Option Source) : Prop where
  remapped : Remapped p
  noCascade : 2 ∉ S
  master : ∀ l, l ∈ p.master.irr ↔ lo l ∈ S
  slave : ∀ l, l ∈ p.slave.irr ↔ hi l ∈ S
  isr : (p.master.isr, p.slave.isr) = inService active

/-- The system and its purpose. -/
structure Agree (s : Sys) (d : Desk) : Prop where
  pics : Holds s.pics d.pending d.active
  iflag : s.iflag = d.active.isNone
  place : s.place = d.active.elim .own fun x => .irq x.vector
  served : s.calls.filterMap Call.vector = d.served
  timer : ∀ n, s.handlers n = some .timer → n = 32
  due : s.due = true → s.place = .irq 32
  asleep : ∀ t n, s.asleep t = some (.irq n) → n = 32

section
variable {S : Finset (Fin 16)} {p : Pair} {k : Fin 16} {l l' : Line} {active : Option Source}

/-! ## The order of the lines -/

/-- The place of a line in `priority`. -/
def rank : Fin 16 → Nat := ![0, 1, 2, 11, 12, 13, 14, 15, 3, 4, 5, 6, 7, 8, 9, 10]

/-- The request that is served next has the least rank. -/
lemma next_eq_some : next S = some k ↔ k ≠ 2 ∧ k ∈ S ∧ ∀ j ∈ S, j ≠ 2 → rank k ≤ rank j := by
  have hmem : ∀ j : Fin 16, j ∈ priority ↔ j ≠ 2 := by decide
  have hinj : ∀ i j : Fin 16, i = j ∨ rank j < rank i ↔ rank j ≤ rank i := by decide
  rw [next, find?_least (r := fun i j => rank i < rank j) (fun i j h => by omega) (by decide)]
  simp only [hmem, hinj, decide_eq_true_eq]
  exact ⟨fun ⟨h, hk, hj⟩ => ⟨h, hk, fun j hS hne => hj j hne hS⟩,
    fun ⟨h, hk, hj⟩ => ⟨h, hk, fun j hne hS => hj j hS hne⟩⟩

/-- There is none when no line but 2 is raised. -/
lemma next_eq_none : next S = none ↔ ∀ j ∈ S, j = 2 := by
  have hmem : ∀ j : Fin 16, j ∈ priority ↔ j ≠ 2 := by decide
  rw [next, List.find?_eq_none]
  simp only [hmem, decide_eq_true_eq]
  exact ⟨fun h j hj => by_contra fun hne => h j hne hj, fun h j hne hj => hne (h j hj)⟩

/-- Lines of the master rank by their number. -/
lemma rank_lo : rank (lo l) ≤ rank (lo l') ↔ l ≤ l' := by
  revert l l'
  decide

/-- Lines of the slave rank by their number. -/
lemma rank_hi : rank (hi l) ≤ rank (hi l') ↔ l ≤ l' := by
  revert l l'
  decide

/-- A line of the master ranks before the slave's if it is not above 2. -/
lemma rank_lo_hi : rank (lo l) ≤ rank (hi l') ↔ l ≤ 2 := by
  revert l l'
  decide

/-- A line of the slave ranks before those of the master above 2. -/
lemma rank_hi_lo : rank (hi l) ≤ rank (lo l') ↔ 2 < l' := by
  revert l l'
  decide

/-- Line 2 is line 2 of the master. -/
lemma lo_ne_two : lo l ≠ 2 ↔ l ≠ 2 := by
  revert l
  decide

/-! ## The controllers -/

/-- The bytes of `irq_handler` end the interrupt, in the slave if it came from there. -/
lemma outports_ack {n : Nat} : outports p (ackBytes n) =
    ⟨p.master.eoi, if n ≥ 40 then p.slave.eoi else p.slave⟩ := by
  rw [ackBytes]
  split_ifs <;> simp [outports, Pair.out, Chip.command_eoi]

/-- The slave is on line 2 of the master. -/
lemma mem_wired : l ∈ p.wired.irr ↔ l = 2 ∧ p.slave.request ≠ none ∨ l ≠ 2 ∧ l ∈ p.master.irr := by
  simp only [Pair.wired, ne_eq, ← Option.isSome_iff_ne_none]
  split_ifs with hs
  · simp only [hs, Finset.mem_insert]
    tauto
  · simp [hs]

namespace Holds

/-- With nothing in service the master asks for its first line. -/
lemma request_master (h : Holds p S none) : p.wired.request = first p.wired.irr :=
  Chip.request_idle (c := p.wired) h.remapped.masterMask (congrArg Prod.fst h.isr)

/-- With nothing in service the slave asks for its first line. -/
lemma request_slave (h : Holds p S none) : p.slave.request = first p.slave.irr :=
  Chip.request_idle h.remapped.slaveMask (congrArg Prod.snd h.isr)

/-- The master reports line 2 for a request at the slave. -/
lemma mem_wired (h : Holds p S none) : l ∈ p.wired.irr ↔ lo l ∈ S ∨ l = 2 ∧ ∃ i, hi i ∈ S := by
  have hslave : p.slave.request ≠ none ↔ ∃ i, hi i ∈ S := by
    rw [h.request_slave, ne_eq, first_eq_none, ← ne_eq, ← Finset.nonempty_iff_ne_empty]
    exact exists_congr h.slave
  have hlo : lo l ∈ S → l ≠ 2 := fun hl h2 => h.noCascade (by rwa [h2] at hl)
  rw [Irq.mem_wired, hslave, h.master]
  tauto

/-- With nothing in service neither chip has a line marked. -/
lemma isr_none (h : Holds p S none) : p.master.isr = ∅ ∧ p.slave.isr = ∅ := Prod.mk_inj.mp h.isr

/-- What the acknowledge does to the controllers, for a line of the master. -/
lemma ack_lo (h : Holds p S none) :
    Holds { p with master := p.master.ack l } (S.erase (lo l)) (some (.line (lo l))) := by
  obtain ⟨hm, hs⟩ := h.isr_none
  refine ⟨⟨h.remapped.1, h.remapped.2, h.remapped.3, h.remapped.4, h.remapped.5⟩,
    fun h2 => h.noCascade (Finset.mem_of_mem_erase h2), fun i => ?_, fun i => ?_, ?_⟩
  · simp [Chip.ack, h.master]
  · simp [h.slave]
  · simp [Chip.ack, hm, hs, inService, Source.inService]

/-- For a line of the slave. -/
lemma ack_hi (h : Holds p S none) :
    Holds ⟨p.master.ack 2, p.slave.ack l⟩ (S.erase (hi l)) (some (.line (hi l))) := by
  obtain ⟨hm, hs⟩ := h.isr_none
  refine ⟨⟨h.remapped.1, h.remapped.2, h.remapped.3, h.remapped.4, h.remapped.5⟩,
    fun h2 => h.noCascade (Finset.mem_of_mem_erase h2), fun i => ?_, fun i => ?_, ?_⟩
  · have h2 : lo i ∈ S → i ≠ 2 := fun hl h2 => h.noCascade (by rwa [h2] at hl)
    simp only [Chip.ack, Finset.mem_erase, h.master, ne_eq, lo_ne_hi, not_false_eq_true, true_and]
    tauto
  · simp [Chip.ack, h.slave]
  · simp [Chip.ack, hm, hs, inService, Source.inService]

/-- The acknowledge gives the vector of the request that comes next. -/
lemma inta_some (h : Holds p S none) (hk : next S = some k) :
    ∃ p', p.inta = some ((Source.line k).vector, p') ∧ Holds p' (S.erase k) (some (.line k)) := by
  obtain ⟨hne, hmem, hleast⟩ := next_eq_some.mp hk
  have hleast : ∀ j ∈ S, rank k ≤ rank j := fun j hj => hleast j hj fun h2 => h.noCascade (h2 ▸ hj)
  have hbase := h.remapped.master
  have hbase' := h.remapped.slave
  induction k using line_cases with
  | lo l =>
    have hreq : p.wired.request = some l := by
      rw [h.request_master, first_eq_some]
      refine ⟨h.mem_wired.mpr (.inl hmem), fun i hi => ?_⟩
      rcases h.mem_wired.mp hi with hi | ⟨rfl, j, hj⟩
      · exact rank_lo.mp (hleast _ hi)
      · exact rank_lo_hi.mp (hleast _ hj)
    refine ⟨{ p with master := p.master.ack l }, ?_, h.ack_lo⟩
    rw [Pair.inta, if_pos h.remapped.cascaded, hreq]
    simp only [if_neg (lo_ne_two.mp hne), Chip.vector, hbase]
    rfl
  | hi l =>
    have hreq : p.wired.request = some 2 := by
      rw [h.request_master, first_eq_some]
      refine ⟨h.mem_wired.mpr (.inr ⟨rfl, l, hmem⟩), fun i hi => ?_⟩
      rcases h.mem_wired.mp hi with hi | ⟨rfl, -⟩
      · exact (rank_hi_lo.mp (hleast _ hi)).le
      · exact le_rfl
    have hreq' : p.slave.request = some l := by
      rw [h.request_slave, first_eq_some]
      exact ⟨(h.slave l).mpr hmem, fun i hi => rank_hi.mp (hleast _ ((h.slave i).mp hi))⟩
    refine ⟨⟨p.master.ack 2, p.slave.ack l⟩, ?_, h.ack_hi⟩
    rw [Pair.inta, if_pos h.remapped.cascaded, hreq]
    simp only [if_true, hreq', Chip.vector, hbase', Source.vector, hi_val]
    congr 2
    rw [show (0x28 : UInt8).toNat = 40 from rfl]
    omega

/-- With no request, it gives the vector of line 7 of the master. -/
lemma inta_none (h : Holds p S none) (hn : next S = none) :
    p.inta = some ((Source.spurious false).vector, p) ∧ Holds p S (some (.spurious false)) := by
  have hempty : ∀ j, j ∉ S := fun j hj => h.noCascade (next_eq_none.mp hn j hj ▸ hj)
  have hreq : p.wired.request = none := by
    rw [h.request_master, first_eq_none, Finset.eq_empty_iff_forall_notMem]
    intro i hi
    rcases h.mem_wired.mp hi with hi | ⟨-, j, hj⟩
    · exact hempty _ hi
    · exact hempty _ hj
  refine ⟨?_, { h with }⟩
  rw [Pair.inta, if_pos h.remapped.cascaded, hreq]
  simp only [Chip.vector, h.remapped.master]
  rfl

/-- The late acknowledge leaves line 2 of the master in service. -/
lemma intaLate (h : Holds p S none) : ∃ p', p.intaLate = some ((Source.spurious true).vector, p') ∧
    Holds p' S (some (.spurious true)) := by
  obtain ⟨hm, hs⟩ := h.isr_none
  refine ⟨{ p with master := p.master.ack 2 }, ?_,
    ⟨h.remapped.1, h.remapped.2, h.remapped.3, h.remapped.4, h.remapped.5⟩, h.noCascade, fun i => ?_,
    h.slave, ?_⟩
  · rw [Pair.intaLate, if_pos h.remapped.cascaded]
    simp only [Chip.vector, h.remapped.slave]
    rfl
  · have h2 : lo i ∈ S → i ≠ 2 := fun hl h2 => h.noCascade (by rwa [h2] at hl)
    simp only [Chip.ack, Finset.mem_erase, h.master]
    tauto
  · simp [Chip.ack, hm, hs, inService, Source.inService]

/-- The acknowledgement of `irq_handler` takes out of service what is in it. -/
lemma ack {x : Source} (h : Holds p S (some x)) : Holds (outports p (ackBytes x.vector)) S none := by
  have hset : ∀ c c' : Chip, c = { p.master with isr := ∅ } → c' = { p.slave with isr := ∅ } →
      Holds ⟨c, c'⟩ S none := by
    rintro c c' rfl rfl
    exact ⟨⟨h.remapped.1, h.remapped.2, h.remapped.3, h.remapped.4, h.remapped.5⟩, h.noCascade,
      h.master, h.slave, rfl⟩
  have hempty : ∀ c : Chip, c.isr = ∅ → c.eoi = { c with isr := ∅ } := fun c hc => by
    rw [Chip.eoi_empty hc, ← hc]
  obtain ⟨hm, hs⟩ := Prod.mk_inj.mp h.isr
  rw [outports_ack]
  cases x with
  | line k =>
    induction k using line_cases with
    | lo l =>
      simp only [split_lo] at hm hs
      rw [if_neg (by simp only [Source.vector, lo_val]; omega)]
      exact hset _ _ (Chip.eoi_single hm) (by rw [← hs])
    | hi l =>
      simp only [split_hi] at hm hs
      rw [if_pos (by simp only [Source.vector, hi_val]; omega)]
      exact hset _ _ (Chip.eoi_single hm) (Chip.eoi_single hs)
  | spurious slave =>
    cases slave with
    | false => exact hset _ _ (hempty _ hm) (by rw [← show p.slave.isr = ∅ from hs]; rfl)
    | true => exact hset _ _ (Chip.eoi_single hm) (hempty _ hs)

/-- A line that is raised joins the requests. -/
lemma raise (h : Holds p S active) (hk : k ≠ 2) : Holds (p.raise k) (insert k S) active := by
  have hS : 2 ∉ insert k S := fun h2 =>
    (Finset.mem_insert.mp h2).elim (fun h2 => hk h2.symm) h.noCascade
  have hr := h.remapped
  induction k using line_cases with
  | lo l =>
    rw [Pair.raise, split_lo]
    exact ⟨⟨hr.1, hr.2, hr.3, hr.4, hr.5⟩, hS, by simp [h.master], by simp [h.slave], h.isr⟩
  | hi l =>
    rw [Pair.raise, split_hi]
    exact ⟨⟨hr.1, hr.2, hr.3, hr.4, hr.5⟩, hS, by simp [h.master], by simp [h.slave], h.isr⟩

/-- A line that is withdrawn leaves the requests. -/
lemma withdraw (h : Holds p S active) : Holds (p.withdraw k) (S.erase k) active := by
  have hS : 2 ∉ S.erase k := fun h2 => h.noCascade (Finset.mem_of_mem_erase h2)
  have hr := h.remapped
  induction k using line_cases with
  | lo l =>
    rw [Pair.withdraw, split_lo]
    exact ⟨⟨hr.1, hr.2, hr.3, hr.4, hr.5⟩, hS, by simp [h.master], by simp [h.slave], h.isr⟩
  | hi l =>
    rw [Pair.withdraw, split_hi]
    exact ⟨⟨hr.1, hr.2, hr.3, hr.4, hr.5⟩, hS, by simp [h.master], by simp [h.slave], h.isr⟩

/-- With nothing in service, the controllers ask for an interrupt when there is a request. -/
lemma int_iff (h : Holds p S none) : p.int = true ↔ S.Nonempty := by
  rw [Pair.int, h.request_master, Option.isSome_iff_ne_none, ne_eq, first_eq_none, ← ne_eq,
    ← Finset.nonempty_iff_ne_empty]
  constructor
  · rintro ⟨l, hl⟩
    rcases h.mem_wired.mp hl with hk | ⟨-, i, hk⟩
    · exact ⟨_, hk⟩
    · exact ⟨_, hk⟩
  · rintro ⟨k, hk⟩
    induction k using line_cases with
    | lo l => exact ⟨l, h.mem_wired.mpr (.inl hk)⟩
    | hi l => exact ⟨2, h.mem_wired.mpr (.inr ⟨rfl, l, hk⟩)⟩

end Holds

/-- `pic_remap` forgets the requests, and leaves nothing in service that was not. -/
lemma holds_picRemap (hm : p.master.isr = ∅) (hs : p.slave.isr = ∅) : Holds (picRemap p) ∅ none := by
  obtain ⟨q, hq⟩ : ∃ q, q = picRemap p := ⟨_, rfl⟩
  have hmaster : q.master = ⟨.ready, false, true, 0x20, 0x04, 0x01, ∅, ∅, p.master.isr⟩ := by
    rw [hq]
    rfl
  have hslave : q.slave = ⟨.ready, false, true, 0x28, 0x02, 0x01, ∅, ∅, p.slave.isr⟩ := by
    rw [hq]
    rfl
  rw [← hq]
  obtain ⟨master, slave⟩ := q
  obtain rfl : master = _ := hmaster
  obtain rfl : slave = _ := hslave
  exact ⟨⟨⟨rfl, rfl, rfl, rfl, rfl, rfl, rfl, rfl⟩, rfl, rfl, rfl, rfl⟩, by simp, by simp, by simp,
    by simp [hm, hs, inService]⟩

end

/-! ## The run -/

section
variable {s s' : Sys} {d : Desk} {e : Event} {p : Pair} {n : Nat} {x : Source}

/-- The switches go to tasks that were left inside of a handler. -/
def Inside (s : Sys) : Event → Prop
  | .swtch new => s.asleep new ≠ some .own
  | _ => True

instance : ∀ s e, Decidable (Inside s e)
  | _, .swtch _ => inferInstanceAs (Decidable (_ ≠ _))
  | _, .raise _ | _, .withdraw _ | _, .take | _, .takeLate | _, .ret | _, .addIntHandler _ _
  | _, .fork _ => .isTrue trivial

/-- What the call in `irq_handler` leaves alone, and what it says. -/
lemma irqCall_eq (s : Sys) (n : Nat) : ∃ ticks calls due, irqCall s n =
    { s with ticks := ticks, calls := s.calls ++ calls, due := due } ∧
      calls.filterMap Call.vector = [n] ∧ (due = true → s.due = true ∨ s.handlers n = some .timer) := by
  rw [irqCall]
  cases hh : s.handlers n with
  | none => exact ⟨_, _, _, rfl, rfl, .inl⟩
  | some h =>
    cases h with
    | other addr => exact ⟨_, _, _, rfl, rfl, .inl⟩
    | timer =>
      simp only [timerHandler]
      split_ifs
      · refine ⟨0, [.handler .timer n, .schedule], true, ?_, rfl, fun _ => .inr trivial⟩
        simp only [List.append_assoc, List.cons_append, List.nil_append]
      · exact ⟨_, _, _, rfl, rfl, .inl⟩

/-- An interrupt is taken. -/
lemma Agree.enter {S : Finset (Fin 16)} (h : Agree s d) (ha : d.active = none)
    (hp : Holds p S (some x)) :
    Both Agree (enter s (some (x.vector, p))) (.ok ({ d with pending := S }.serve x)) := by
  obtain ⟨ticks, calls, due, hcall, hvec, hdue⟩ :=
    irqCall_eq { s with pics := p, iflag := false, place := .irq x.vector } x.vector
  rw [Irq.enter]
  refine .ok ?_
  rw [hcall]
  refine ⟨hp, rfl, rfl, ?_, h.timer, fun hd => ?_, h.asleep⟩
  · rw [List.filterMap_append, hvec, h.served]
    rfl
  · rcases hdue hd with hd | ht
    · have hplace := h.due hd
      rw [h.place, ha] at hplace
      cases hplace
    · exact congrArg Place.irq (h.timer _ ht)

/-- Every event keeps them together. -/
lemma Agree.step (h : Agree s d) (hl : Legal s e ∧ Inside s e) :
    Both Agree (step s e) (Desk.step d e) := by
  have hidle : s.iflag = true → d.active = none := fun hi => by
    rw [h.iflag] at hi
    exact Option.isNone_iff_eq_none.mp hi
  have hpics : d.active = none → Holds s.pics d.pending none := fun ha => ha ▸ h.pics
  cases e with
  | raise k => exact .ok ⟨h.pics.raise hl.1, h.iflag, h.place, h.served, h.timer, h.due, h.asleep⟩
  | withdraw k => exact .ok ⟨h.pics.withdraw, h.iflag, h.place, h.served, h.timer, h.due, h.asleep⟩
  | take =>
    have ha := hidle hl.1
    simp only [Irq.step, Desk.step]
    cases hn : next d.pending with
    | some k =>
      obtain ⟨p, hp, hh⟩ := (hpics ha).inta_some hn
      rw [hp]
      exact h.enter ha hh
    | none =>
      obtain ⟨hp, hh⟩ := (hpics ha).inta_none hn
      rw [hp]
      exact h.enter ha hh
  | takeLate =>
    have ha := hidle hl.1.1
    obtain ⟨p, hp, hh⟩ := (hpics ha).intaLate
    simp only [Irq.step, Desk.step, hp]
    exact h.enter ha hh
  | ret =>
    cases ha : d.active with
    | none => exact absurd (h.place.trans (by rw [ha]; rfl)) hl.1
    | some x =>
      have hplace : s.place = .irq x.vector := h.place.trans (by rw [ha]; rfl)
      have hh : Holds s.pics d.pending (some x) := ha ▸ h.pics
      simp only [Irq.step, Desk.step, hplace]
      exact .ok ⟨hh.ack, rfl, rfl, h.served, h.timer, nofun, h.asleep⟩
  | addIntHandler n hn =>
    refine .ok ⟨h.pics, h.iflag, h.place, h.served, fun m hm => ?_, h.due, h.asleep⟩
    change Function.update s.handlers n.toNat (some hn) m = _ at hm
    by_cases hmn : m = n.toNat
    · subst hmn
      rw [Function.update_self] at hm
      rw [hl.1 (Option.some.inj hm)]
      rfl
    · rw [Function.update_of_ne hmn] at hm
      exact h.timer m hm
  | fork child =>
    refine .ok ⟨h.pics, h.iflag, h.place, h.served, h.timer, h.due, fun t n ht => ?_⟩
    change Function.update s.asleep child (some .own) t = _ at ht
    by_cases htc : t = child
    · subst htc
      rw [Function.update_self] at ht
      cases ht
    · rw [Function.update_of_ne htc] at ht
      exact h.asleep t n ht
  | swtch new =>
    have hplace := h.due hl.1.1
    obtain ⟨n, hn⟩ : ∃ n, s.asleep new = some (.irq n) := by
      cases ho : s.asleep new with
      | none => exact absurd ho hl.1.2
      | some w =>
        cases w with
        | own => exact absurd ho hl.2
        | irq n => exact ⟨n, rfl⟩
    obtain rfl := h.asleep new n hn
    refine .ok ⟨h.pics, h.iflag, ?_, h.served, h.timer, nofun, fun t m ht => ?_⟩
    · rw [hn, ← h.place, hplace]
      rfl
    · change Function.update (Function.update s.asleep s.current (some s.place)) new none t = _ at ht
      by_cases htn : t = new
      · subst htn
        rw [Function.update_self] at ht
        cases ht
      · rw [Function.update_of_ne htn] at ht
        by_cases htc : t = s.current
        · subst htc
          rw [Function.update_self, hplace] at ht
          cases ht
          rfl
        · rw [Function.update_of_ne htc] at ht
          exact h.asleep t m ht

/-- After boot the desk is idle. -/
lemma agree_boot (hm : p.master.isr = ∅) (hs : p.slave.isr = ∅) : Agree (boot p) .idle :=
  ⟨holds_picRemap hm hs, rfl, rfl, rfl, nofun, nofun, nofun⟩

/-- A `Desk` is always open. -/
lemma desk_total (d : Desk) (l : List Event) : ∃ d', exec Desk.step d l = .ok d' := by
  have hstep : ∀ (d : Desk) e, True → True → ∃ d', Desk.step d e = .ok d' ∧ True := by
    intro d e _ _
    cases e with
    | take =>
      simp only [Desk.step]
      split <;> exact ⟨_, rfl, trivial⟩
    | _ => exact ⟨_, rfl, trivial⟩
  have hl : LegalRun Desk.step (fun _ _ => True) d l := .of_forall fun _ _ => trivial
  obtain ⟨d', h, -⟩ := exec_inv hstep (fun _ h => h) trivial hl
  exact ⟨d', h⟩

/-- Whatever the devices do and whenever the processor takes interrupts, the requests are served one at a
time, the first one in the order of the lines first, each with its vector; and as long as nothing is
served, the controllers ask for an interrupt when there is a request. -/
theorem irqs_served {l : List Event} (hm : p.master.isr = ∅) (hs : p.slave.isr = ∅)
    (hl : LegalRun step (fun s e => Legal s e ∧ Inside s e) (boot p) l) :
    ∃ s d, exec step (boot p) l = .ok s ∧ exec Desk.step .idle l = .ok d ∧ Agree s d ∧
      (d.active = none → (s.pics.int = true ↔ d.pending.Nonempty)) := by
  obtain ⟨d, hd⟩ := desk_total .idle l
  have hstep : ∀ s d e, Agree s d → Legal s e ∧ Inside s e → Both Agree (step s e) (Desk.step d e) :=
    fun _ _ _ h hl => h.step hl
  have hb := exec_sim hstep (agree_boot hm hs) hl
  rw [hd] at hb
  generalize exec step (boot p) l = x at hb
  cases hb with
  | ok h => exact ⟨_, d, rfl, hd, h, fun ha => (ha ▸ h.pics).int_iff⟩

/-- Controllers as a BIOS leaves them. -/
def biosPics : Pair :=
  ⟨⟨.ready, false, true, 0x08, 0x04, 0x01, lines 0xB8, ∅, ∅⟩,
    ⟨.ready, false, true, 0x70, 0x02, 0x01, lines 0x8F, {3}, ∅⟩⟩

/-- The slave comes before line 3 of the master, and line 1 before both. -/
def threeRequests : List Event := [.raise 9, .raise 3, .take, .raise 1, .ret, .take, .ret, .take]

/-- Three requests, one of them through the slave. -/
theorem irqs_served_three : ∃ s, exec step (boot biosPics) threeRequests = .ok s ∧
    s.calls.filterMap Call.vector = [41, 33, 35] := by
  have hl : LegalRun step (fun s e => Legal s e ∧ Inside s e) (boot biosPics) threeRequests := by
    decide
  obtain ⟨s, d, hs, hd, h, -⟩ := irqs_served rfl rfl hl
  refine ⟨s, hs, ?_⟩
  rw [h.served, ← Except.ok.inj (show exec Desk.step .idle threeRequests = .ok d from hd)]
  rfl

end

end ToeS.Irq
