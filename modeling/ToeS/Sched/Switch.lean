import ToeS.Lib.X86

/-!
# The context switch

Model of `ctx_swtch` of `kern/asm/switch.S`, instruction by instruction, and of `context_t` of
`kern/inc/x86.h`, whose fields the code addresses by their offsets. A task that is not running has its
registers on its stack and the stack pointer in its record.

`exec_ctxSave` says what the half up to the store of the stack pointer does, `exec_ctxRestore` what the
other half does: the pops read the stack that `esp` has been moved to.
-/

namespace ToeS.Switch
open Lib Lib.X86

/-- `context_t`. -/
structure Context where
  esp : Word
  edi : Word
  esi : Word
  ebx : Word
  ebp : Word

/-- The record at `p`. -/
def Context.at (m : Mem) (p : Word) : Context :=
  ⟨load m (p + 0), load m (p + 4), load m (p + 8), load m (p + 12), load m (p + 16)⟩

/-- The first part of `ctx_swtch`: the record of the old task. -/
def ctxStore : List Instr := [
  .movMR 4 .esp .eax,
  .movMR 8 .esp .edx,
  .movRM .ebp 16 .eax,
  .movRM .ebx 12 .eax,
  .movRM .esi 8 .eax,
  .movRM .edi 4 .eax]

/-- The second part: its stack. -/
def ctxPush : List Instr := [
  .pushM 16 .eax,
  .pushM 12 .eax,
  .pushM 8 .eax,
  .pushM 4 .eax,
  .movRM .esp 0 .eax]

/-- The last part, on the stack of the new task. -/
def ctxRestore : List Instr := [
  .movMR 0 .edx .esp,
  .popR .edi,
  .popR .esi,
  .popR .ebx,
  .popR .ebp,
  .ret]

/-- What the old task runs of `ctx_swtch`. -/
def ctxSave : List Instr := ctxStore ++ ctxPush

/-- `ctx_swtch`. -/
def ctxSwtch : List Instr := ctxSave ++ ctxRestore

/-! ## The old task -/

section
variable {m : Machine} {old new ret : Word}

/-- The record is filled, and `eax` and `edx` have the two arguments. -/
lemma exec_ctxStore (hs : m.Stack [ret, old, new]) (hold : old.toNat + 20 ≤ 4294967296) :
    (m.exec ctxStore).reg .eax = old ∧ (m.exec ctxStore).reg .edx = new ∧
      (m.exec ctxStore).reg .esp = m.reg .esp ∧
      Context.at (m.exec ctxStore).mem old = ⟨load m.mem (old + 0), m.reg .edi, m.reg .esi, m.reg .ebx,
        m.reg .ebp⟩ ∧
      SameOff (Bytes old.toNat (old.toNat + 20)) m.mem (m.exec ctxStore).mem := by
  obtain ⟨-, hold', hnew, -⟩ := hs
  have hnew : load m.mem (m.reg .esp + 8) = new := by
    rw [← hnew, show m.reg .esp + 4 + 4 = m.reg .esp + 8 by grind]
  have hin : ∀ {k : Nat} {m : Mem} {v : Word}, k + 4 ≤ 20 →
      SameOff (Bytes old.toNat (old.toNat + 20)) m (store m (old + .ofNat 32 k) v) := by
    intro k m v hk
    have hadd : (old + .ofNat 32 k).toNat = old.toNat + k := by
      rw [BitVec.toNat_add, BitVec.toNat_ofNat]
      omega
    refine (SameOff.store (by omega)).mono fun x hx => ?_
    rw [hadd] at hx
    exact ⟨by have := hx.1; omega, by have := hx.2; omega⟩
  simp only [ctxStore, Machine.exec, List.foldl, Machine.step, Machine.setReg_reg,
    Machine.setReg_mem, reduceCtorEq, if_false, if_true, hold', hnew, true_and]
  refine ⟨?_, ?_⟩
  · simp (disch := decide) only [Context.at, load_store_off, load_store]
  · exact (((hin (k := 16) (by omega)).trans (hin (k := 12) (by omega))).trans
      (hin (k := 8) (by omega))).trans (hin (k := 4) (by omega))

/-- A record off the window is unchanged. -/
lemma Context.at_sameOff {W : Nat → Prop} {m m' : Mem} {p : Word} (h : SameOff W m m')
    (hp : p.toNat + 20 ≤ 4294967296) (hW : ∀ x, Bytes p.toNat (p.toNat + 20) x → ¬ W x) :
    Context.at m' p = Context.at m p := by
  have hload : ∀ k, k + 4 ≤ 20 → load m' (p + .ofNat 32 k) = load m (p + .ofNat 32 k) := by
    intro k hk
    have hadd : (p + .ofNat 32 k).toNat = p.toNat + k := by
      rw [BitVec.toNat_add, BitVec.toNat_ofNat]
      omega
    refine SameOff.load h (by omega) fun x hx => hW x ?_
    rw [hadd] at hx
    exact ⟨by have := hx.1; omega, by have := hx.2; omega⟩
  unfold Context.at
  congr 1
  · exact hload 0 (by omega)
  · exact hload 4 (by omega)
  · exact hload 8 (by omega)
  · exact hload 12 (by omega)
  · exact hload 16 (by omega)

/-- The bytes that `ctx_swtch` writes: the record of the old task, and four words of its stack. -/
def Written (old : Word) (esp : Nat) (x : Nat) : Prop :=
  Bytes old.toNat (old.toNat + 20) x ∨ Bytes (esp - 16) esp x

/-- Where the record and the stack of the old task are. -/
structure Placed (old : Word) (esp : Nat) : Prop where
  record : old.toNat + 20 ≤ 4294967296
  room : 16 ≤ esp
  top : esp + 12 ≤ 4294967296
  apart : old.toNat + 20 ≤ esp - 16 ∨ esp + 12 ≤ old.toNat

/-- A push leaves the record alone. -/
lemma push_keeps {c : Context} {v : Word} {esp : Nat} (hp : Placed old esp)
    (hesp : esp - 12 ≤ (m.reg .esp).toNat) (hesp' : (m.reg .esp).toNat ≤ esp)
    (hc : Context.at m.mem old = c) :
    Context.at (m.push v).mem old = c ∧ SameOff (Written old esp) m.mem (m.push v).mem := by
  obtain ⟨hrec, hroom, -, hapart⟩ := hp
  have hstore := Machine.push_sameOff (m := m) (v := v) (by omega)
  refine ⟨?_, hstore.mono fun x hx => .inr ?_⟩
  · rw [Context.at_sameOff hstore hrec fun x hx hw => by unfold Bytes at hx hw; omega, hc]
  · exact ⟨by have := hx.1; omega, by have := hx.2; omega⟩

/-- The saved registers are pushed, and `esp` goes to the record. -/
lemma exec_ctxPush {ws : List Word} {c : Context} (hs : m.Stack ws) (hws : ws.length ≤ 3)
    (heax : m.reg .eax = old) (hp : Placed old (m.reg .esp).toNat)
    (hc : Context.at m.mem old = c) :
    (m.exec ctxPush).reg .edx = m.reg .edx ∧ load (m.exec ctxPush).mem old = m.reg .esp - 16 ∧
      WordsAt (m.exec ctxPush).mem (m.reg .esp - 16) (c.edi :: c.esi :: c.ebx :: c.ebp :: ws) ∧
      SameOff (Written old (m.reg .esp).toNat) m.mem (m.exec ctxPush).mem := by
  obtain ⟨esp, hesp⟩ : ∃ esp, esp = (m.reg .esp).toNat := ⟨_, rfl⟩
  rw [← hesp] at hp ⊢
  obtain ⟨m₁, hm₁⟩ : ∃ m₁, m₁ = m.push c.ebp := ⟨_, rfl⟩
  obtain ⟨m₂, hm₂⟩ : ∃ m₂, m₂ = m₁.push c.ebx := ⟨_, rfl⟩
  obtain ⟨m₃, hm₃⟩ : ∃ m₃, m₃ = m₂.push c.esi := ⟨_, rfl⟩
  obtain ⟨m₄, hm₄⟩ : ∃ m₄, m₄ = m₃.push c.edi := ⟨_, rfl⟩
  -- the stack pointer on the way
  have hroom := hp.room
  have hreg : ∀ {m m' : Machine} {v : Word}, m' = m.push v → m'.reg .esp = m.reg .esp - 4 ∧
      ∀ r, r ≠ .esp → m'.reg r = m.reg r := by
    rintro m m' v rfl
    exact ⟨by simp, fun r hr => by simp [hr]⟩
  have he₁ : (m₁.reg .esp).toNat = esp - 4 := by
    rw [(hreg hm₁).1, toNat_sub_four (by omega), ← hesp]
  have he₂ : (m₂.reg .esp).toNat = esp - 8 := by
    rw [(hreg hm₂).1, toNat_sub_four (by omega), he₁]
    omega
  have he₃ : (m₃.reg .esp).toNat = esp - 12 := by
    rw [(hreg hm₃).1, toNat_sub_four (by omega), he₂]
    omega
  have he₄ : m₄.reg .esp = m.reg .esp - 16 := by
    rw [(hreg hm₄).1, (hreg hm₃).1, (hreg hm₂).1, (hreg hm₁).1]
    grind
  -- the record on the way
  obtain ⟨hc₁, ho₁⟩ := push_keeps (v := c.ebp) hp (by omega) (by omega) hc
  obtain ⟨hc₂, ho₂⟩ := push_keeps (v := c.ebx) hp (by omega) (by omega) (hm₁ ▸ hc₁)
  obtain ⟨hc₃, ho₃⟩ := push_keeps (v := c.esi) hp (by omega) (by omega) (hm₂ ▸ hc₂)
  obtain ⟨hc₄, ho₄⟩ := push_keeps (v := c.edi) hp (by omega) (by omega) (hm₃ ▸ hc₃)
  rw [← hm₁] at hc₁ ho₁
  rw [← hm₂] at hc₂ ho₂
  rw [← hm₃] at hc₃ ho₃
  rw [← hm₄] at hc₄ ho₄
  have ha₁ : m₁.reg .eax = old := ((hreg hm₁).2 .eax nofun).trans heax
  have ha₂ : m₂.reg .eax = old := ((hreg hm₂).2 .eax nofun).trans ha₁
  have ha₃ : m₃.reg .eax = old := ((hreg hm₃).2 .eax nofun).trans ha₂
  have ha₄ : m₄.reg .eax = old := ((hreg hm₄).2 .eax nofun).trans ha₃
  have hpush : ∀ {m : Machine} {disp v : Word}, m.reg .eax = old → load m.mem (old + disp) = v →
      m.step (.pushM disp .eax) = m.push v := by
    rintro m disp v rfl rfl
    rfl
  have hrun : m.exec ctxPush = { m₄ with mem := store m₄.mem old (m₄.reg .esp) } := by
    rw [ctxPush, Machine.exec_cons, hpush heax (congrArg Context.ebp hc), ← hm₁, Machine.exec_cons,
      hpush ha₁ (congrArg Context.ebx hc₁), ← hm₂, Machine.exec_cons,
      hpush ha₂ (congrArg Context.esi hc₂), ← hm₃, Machine.exec_cons,
      hpush ha₃ (congrArg Context.edi hc₃), ← hm₄, Machine.exec_cons, Machine.step, ha₄,
      show old + 0 = old by simp]
    rfl
  have hstack : m₄.Stack (c.edi :: c.esi :: c.ebx :: c.ebp :: ws) := by
    rw [hm₄, hm₃, hm₂, hm₁]
    refine (((hs.push ?_).push ?_).push ?_).push ?_
    all_goals
      repeat rw [List.length_cons]
      omega
  have hstore : SameOff (Bytes old.toNat (old.toNat + 4)) m₄.mem (m.exec ctxPush).mem := by
    rw [hrun]
    exact SameOff.store (by have := hp.record; omega)
  refine ⟨?_, by rw [hrun, load_store, he₄], ?_, ?_⟩
  · rw [hrun]
    show m₄.reg .edx = m.reg .edx
    rw [(hreg hm₄).2 .edx nofun, (hreg hm₃).2 .edx nofun, (hreg hm₂).2 .edx nofun,
      (hreg hm₁).2 .edx nofun]
  · rw [Machine.Stack, he₄] at hstack
    have h16 : (m.reg .esp - 16).toNat = esp - 16 := by bv_omega
    have hlen : (c.edi :: c.esi :: c.ebx :: c.ebp :: ws).length = ws.length + 4 := rfl
    have htop := hp.top
    have hapart := hp.apart
    refine hstack.sameOff hstore (by omega) fun x hx hw => ?_
    unfold Bytes at hx hw
    omega
  · exact (((ho₁.trans ho₂).trans ho₃).trans ho₄).trans (hstore.mono fun x hx =>
      .inl ⟨hx.1, by have := hx.2; omega⟩)

/-- The registers of a task and where it goes on. -/
structure Saved where
  edi : Word
  esi : Word
  ebx : Word
  ebp : Word
  esp : Word
  eip : Word

/-- What a task has when it calls a function that returns to `ret`. -/
def Saved.of (m : Machine) (ret : Word) : Saved :=
  ⟨m.reg .edi, m.reg .esi, m.reg .ebx, m.reg .ebp, m.reg .esp, ret⟩

/-- The words that `ctx_swtch` leaves on the stack. -/
def Saved.words (v : Saved) : List Word := [v.edi, v.esi, v.ebx, v.ebp, v.eip]

/-- The old task, from the call of `ctx_swtch` to the store of its stack pointer. -/
lemma exec_ctxSave (ret : Word) (hs : m.Stack [old, new]) (hroom : 20 ≤ (m.reg .esp).toNat)
    (hp : Placed old ((m.reg .esp).toNat - 4)) :
    (m.exec (.call ret :: ctxSave)).reg .edx = new ∧
      load (m.exec (.call ret :: ctxSave)).mem old = m.reg .esp - 20 ∧
      WordsAt (m.exec (.call ret :: ctxSave)).mem (m.reg .esp - 20) (Saved.of m ret).words ∧
      SameOff (fun x => Bytes old.toNat (old.toNat + 20) x ∨
        Bytes ((m.reg .esp).toNat - 20) (m.reg .esp).toNat x) m.mem
        (m.exec (.call ret :: ctxSave)).mem := by
  obtain ⟨m₁, hm₁⟩ : ∃ m₁, m₁ = m.push ret := ⟨_, rfl⟩
  obtain ⟨m₂, hm₂⟩ : ∃ m₂, m₂ = m₁.exec ctxStore := ⟨_, rfl⟩
  have hrun : m.exec (.call ret :: ctxSave) = m₂.exec ctxPush := by
    rw [ctxSave, Machine.exec_cons, Machine.step, ← hm₁, Machine.exec_append, ← hm₂]
  -- the call
  have hs₁ : m₁.Stack [ret, old, new] := hm₁ ▸ hs.push (by simp)
  have hreg₁ : ∀ r, r ≠ .esp → m₁.reg r = m.reg r := fun r hr => by simp [hm₁, hr]
  have hesp₁ : m₁.reg .esp = m.reg .esp - 4 := by simp [hm₁]
  have hnat₁ : (m₁.reg .esp).toNat = (m.reg .esp).toNat - 4 := by
    rw [hesp₁, toNat_sub_four (by omega)]
  have ho₁ : SameOff (Bytes ((m.reg .esp).toNat - 4) (m.reg .esp).toNat) m.mem m₁.mem :=
    hm₁ ▸ Machine.push_sameOff (by omega)
  -- the record
  have hp₁ : Placed old (m₁.reg .esp).toNat := by rwa [hnat₁]
  obtain ⟨heax, hedx, hesp₂, hc₂, ho₂⟩ := exec_ctxStore hs₁ hp.record
  rw [← hm₂] at heax hedx hesp₂ hc₂ ho₂
  have hs₂ : m₂.Stack [ret] := by
    have hapart := hp.apart
    have htop := hp.top
    have h : m₁.Stack [ret] := ⟨hs₁.1, trivial⟩
    rw [Machine.Stack, hesp₂]
    refine WordsAt.sameOff h ho₂ ?_ fun x hx hw => ?_
    · simp only [List.length_singleton]
      omega
    · simp only [List.length_singleton] at hx
      unfold Bytes at hx hw
      omega
  -- the stack
  obtain ⟨hedx', hload, hwords, ho₃⟩ := exec_ctxPush hs₂ (by simp) heax (hesp₂ ▸ hp₁) hc₂
  rw [hrun]
  have hesp₃ : m₂.reg .esp - 16 = m.reg .esp - 20 := by
    rw [hesp₂, hesp₁]
    grind
  rw [hesp₃] at hload hwords
  refine ⟨hedx'.trans hedx, hload, ?_, ?_⟩
  · simp only [hreg₁ _ (by decide : Reg.edi ≠ .esp), hreg₁ _ (by decide : Reg.esi ≠ .esp),
      hreg₁ _ (by decide : Reg.ebx ≠ .esp), hreg₁ _ (by decide : Reg.ebp ≠ .esp)] at hwords
    exact hwords
  · refine ((ho₁.mono ?_).trans (ho₂.mono ?_)).trans (ho₃.mono ?_)
    all_goals
      intro x hx
      unfold Written Bytes at *
      rw [hesp₂, hnat₁] at *
      omega

/-! ## The new task -/

/-- The registers that a task gets back, and where it goes on. -/
structure Restored (v : Saved) (m : Machine) : Prop where
  edi : m.reg .edi = v.edi
  esi : m.reg .esi = v.esi
  ebx : m.reg .ebx = v.ebx
  ebp : m.reg .ebp = v.ebp
  esp : m.reg .esp = v.esp
  eip : m.eip = v.eip

/-- The pops take what is at the saved stack pointer. -/
lemma exec_ctxRestore {v : Saved} {e : Word} (he : load m.mem (m.reg .edx) = e)
    (hw : WordsAt m.mem e v.words) :
    Restored { v with esp := e + 20 } (m.exec ctxRestore) ∧ (m.exec ctxRestore).mem = m.mem := by
  obtain ⟨m₀, hm₀⟩ : ∃ m₀, m₀ = m.setReg .esp e := ⟨_, rfl⟩
  have hmov : m.step (.movMR 0 .edx .esp) = m₀ := by
    rw [hm₀, ← he, Machine.step, show m.reg .edx + 0 = m.reg .edx by simp]
  have h₀ : m₀.Stack v.words := by
    rw [hm₀]
    unfold Machine.Stack
    simpa using hw
  have h₁ := h₀.popR (r := .edi) nofun
  have h₂ := h₁.popR (r := .esi) nofun
  have h₃ := h₂.popR (r := .ebx) nofun
  have h₄ := h₃.popR (r := .ebp) nofun
  have hrun : m.exec ctxRestore =
      ((((m₀.popR .edi).popR .esi).popR .ebx).popR .ebp).step .ret := by
    rw [ctxRestore, Machine.exec_cons, hmov]
    rfl
  rw [hrun]
  refine ⟨⟨?_, ?_, ?_, ?_, ?_, h₄.top⟩, by rw [hm₀]; rfl⟩
  · simp [Machine.step, h₀.top]
  · simp [Machine.step, h₁.top]
  · simp [Machine.step, h₂.top]
  · simp [Machine.step, h₃.top]
  · simp only [Machine.step, hm₀, Machine.drop_reg, Machine.popR_reg, Machine.setReg_reg, reduceCtorEq,
      if_true, if_false]
    grind

end

/-! ## Runs -/

/-- Where the stacks and the records of the tasks are: apart from each other. -/
structure Layout (ι : Type) where
  lo : ι → Nat
  hi : ι → Nat
  ctx : ι → Word
  top : ∀ t, hi t ≤ 4294967296
  record : ∀ t, (ctx t).toNat + 20 ≤ 4294967296
  apart : ∀ t u, t ≠ u → hi t ≤ lo u ∨ hi u ≤ lo t
  records : ∀ t u, t ≠ u →
    (ctx t).toNat + 20 ≤ (ctx u).toNat ∨ (ctx u).toNat + 20 ≤ (ctx t).toNat
  outside : ∀ t u, (ctx t).toNat + 20 ≤ lo u ∨ hi u ≤ (ctx t).toNat

/-- The processor, the task that runs, and for each task that `ctx_swtch` has suspended what it had
when it called. -/
structure Sys (ι : Type) where
  cpu : Machine
  cur : ι
  saved : ι → Option Saved

section
variable {ι : Type} (L : Layout ι)

/-- The bytes of the stack and of the record of a task. -/
def Layout.Own (t : ι) (x : Nat) : Prop :=
  Bytes (L.lo t) (L.hi t) x ∨ Bytes (L.ctx t).toNat ((L.ctx t).toNat + 20) x

/-- The task that runs is about to call `ctx_swtch` for the task `t`: the arguments are on its stack,
which has room for the call. -/
structure Calls (s : Sys ι) (t : ι) : Prop where
  args : s.cpu.Stack [L.ctx s.cur, L.ctx t]
  lo : L.lo s.cur + 20 ≤ (s.cpu.reg .esp).toNat
  hi : (s.cpu.reg .esp).toNat + 8 ≤ L.hi s.cur

/-- The task `t` is suspended with the registers `v`. -/
structure Suspended (m : Mem) (t : ι) (v : Saved) : Prop where
  esp : load m (L.ctx t) = v.esp - 20
  words : WordsAt m (v.esp - 20) v.words
  lo : L.lo t + 20 ≤ v.esp.toNat
  hi : v.esp.toNat ≤ L.hi t

/-- What holds between two steps. -/
structure Inv (s : Sys ι) : Prop where
  cur : s.saved s.cur = none
  saved : ∀ t v, s.saved t = some v → Suspended L s.cpu.mem t v

variable {L} {m m' : Mem} {s s' s₀ : Sys ι} {t : ι} {ret : Word} {v : Saved}

/-- A task stays suspended while its stack and its record are left alone. -/
lemma Suspended.congr (h : Suspended L m t v) (hm : ∀ x, L.Own t x → m' x = m x) :
    Suspended L m' t v := by
  obtain ⟨hesp, hwords, hlo, hhi⟩ := h
  have hsame : SameOff (fun x => ¬ L.Own t x) m m' := fun x hx => hm x (not_not.mp hx)
  have htop := L.top t
  have hrec := L.record t
  have hsub : (v.esp - 20).toNat = v.esp.toNat - 20 := by bv_omega
  have hlen : v.words.length = 5 := rfl
  refine ⟨?_, hwords.sameOff hsame (by omega) fun x hx hw => hw (.inl ?_), hlo, hhi⟩
  · rw [SameOff.load hsame (by omega) fun x hx hw => hw (.inr ⟨hx.1, by have := hx.2; omega⟩), hesp]
  · exact ⟨by have := hx.1; omega, by have := hx.2; omega⟩

variable [DecidableEq ι]

/-- What is remembered when the task that runs is suspended. -/
def suspend (s : Sys ι) (ret : Word) : ι → Option Saved :=
  Function.update s.saved s.cur (some (.of s.cpu ret))

/-- The call of `ctx_swtch` by the task that runs, with the arguments for the task `t`. -/
def switchTo (s : Sys ι) (t : ι) (ret : Word) : Sys ι where
  cpu := s.cpu.exec (.call ret :: ctxSwtch)
  cur := t
  saved := Function.update (suspend s ret) t none

variable (L) in
/-- A task runs, and changes what it likes but the stacks and records of suspended tasks, or it
switches to any task. -/
inductive Step : Sys ι → Sys ι → Prop
  | run {s s' : Sys ι} (hcur : s'.cur = s.cur) (hsaved : s'.saved = s.saved)
    (hmem : ∀ t v, s.saved t = some v → ∀ x, L.Own t x → s'.cpu.mem x = s.cpu.mem x) : Step s s'
  | swtch {s : Sys ι} (t : ι) (ret : Word) (h : Calls L s t) : Step s (switchTo s t ret)

/-- The halves of the call: the old task is suspended, no other one is disturbed, and the new one gets
back what it had. -/
lemma switchTo_spec (hI : Inv L s) (hc : Calls L s t) :
    (∀ u v, suspend s ret u = some v → Suspended L (switchTo s t ret).cpu.mem u v) ∧
      ∀ v, suspend s ret t = some v → Restored v (switchTo s t ret).cpu := by
  obtain ⟨hargs, hlo, hhi⟩ := hc
  obtain ⟨m, hm⟩ : ∃ m, m = s.cpu.exec (.call ret :: ctxSave) := ⟨_, rfl⟩
  have hrun : (switchTo s t ret).cpu = m.exec ctxRestore := by
    rw [switchTo, ctxSwtch, ← List.cons_append, Machine.exec_append, ← hm]
  have hmem : (switchTo s t ret).cpu.mem = m.mem := by
    rw [hrun]
    rfl
  have hp : Placed (L.ctx s.cur) ((s.cpu.reg .esp).toNat - 4) := by
    have := L.outside s.cur s.cur
    have := L.top s.cur
    exact ⟨L.record _, by omega, by omega, by omega⟩
  obtain ⟨hedx, hesp, hwords, hoff⟩ := exec_ctxSave ret hargs (by omega) hp
  rw [← hm] at hedx hesp hwords hoff
  have hsusp : ∀ u v, suspend s ret u = some v → Suspended L m.mem u v := by
    intro u v hv
    by_cases hu : u = s.cur
    · subst hu
      rw [suspend, Function.update_self] at hv
      cases hv
      exact ⟨hesp, hwords, hlo, (Nat.le_add_right _ 8).trans hhi⟩
    · rw [suspend, Function.update_of_ne hu] at hv
      refine (hI.saved u v hv).congr fun x hx => hoff x fun hw => ?_
      have hapart := L.apart u s.cur hu
      have hrecords := L.records u s.cur hu
      have hout := L.outside u s.cur
      have hout' := L.outside s.cur u
      unfold Layout.Own Bytes at hx
      unfold Bytes at hw
      omega
  refine ⟨fun u v hv => hmem ▸ hsusp u v hv, fun v hv => ?_⟩
  obtain ⟨hesp, hwords, -, -⟩ := hsusp t v hv
  have hres := (exec_ctxRestore (hedx ▸ hesp) hwords).1
  rw [show v.esp - 20 + 20 = v.esp by grind] at hres
  exact hrun ▸ hres

/-- A step keeps the invariant of the tasks. -/
lemma Inv.step (hI : Inv L s) (h : Step L s s') : Inv L s' := by
  cases h with
  | run hcur hsaved hmem =>
    refine ⟨by rw [hsaved, hcur, hI.cur], fun t v hv => ?_⟩
    rw [hsaved] at hv
    exact (hI.saved t v hv).congr (hmem t v hv)
  | swtch t ret hc =>
    refine ⟨Function.update_self .., fun u v hv => ?_⟩
    have hv : Function.update (suspend s ret) t none u = some v := hv
    by_cases hu : u = t
    · subst hu
      rw [Function.update_self] at hv
      cases hv
    · rw [Function.update_of_ne hu] at hv
      exact (switchTo_spec hI hc).1 u v hv

/-- A run in which no task is suspended at first. -/
lemma Inv.run (h0 : ∀ t, s₀.saved t = none) (h : Relation.ReflTransGen (Step L) s₀ s) :
    Inv L s := by
  induction h with
  | refl => exact ⟨h0 _, fun t v hv => by rw [h0 t] at hv; cases hv⟩
  | tail _ h ih => exact ih.step h

/-- In every run, whenever `ctx_swtch` switches to a task that it has suspended, be it in this very
call, the task goes on where it had called from, with the registers it had then. -/
theorem switchTo_restores (h0 : ∀ t, s₀.saved t = none) (h : Relation.ReflTransGen (Step L) s₀ s)
    (hc : Calls L s t) (hv : suspend s ret t = some v) : Restored v (switchTo s t ret).cpu :=
  (switchTo_spec (.run h0 h) hc).2 v hv

end

/-- Two tasks. -/
def twoTasks : Layout Bool where
  lo t := if t then 0x2000 else 0x1000
  hi t := if t then 0x3000 else 0x2000
  ctx t := if t then 0x4020 else 0x4000
  top := by decide
  record := by decide
  apart := by decide
  records := by decide
  outside := by decide

/-- A machine whose registers are all `v`, with two words on the stack. -/
def calling (mem : Mem) (v w w' : Word) : Machine :=
  ⟨fun _ => v, fun _ => 0, 0, 0, 0, store (store mem v w) (v + 4) w'⟩

/-- A caller has pushed the two arguments. -/
lemma calling_stack {mem : Mem} {v w w' : Word} : (calling mem v w w').Stack [w, w'] := by
  refine ⟨?_, ?_, trivial⟩
  · show load (store (store mem v w) (v + 4) w') v = w
    rw [load_store_ne, load_store] <;> bv_omega
  · exact load_store

/-- The first task is about to call, and no task is suspended. -/
def firstCall : Sys Bool := ⟨calling (fun _ => 0) 0x1FF8 0x4000 0x4020, false, fun _ => none⟩

/-- The second task is about to call back. -/
def secondCall : Sys Bool :=
  { switchTo firstCall true 7 with
    cpu := calling (switchTo firstCall true 7).cpu.mem 0x2FF8 0x4020 0x4000 }

/-- The first task gets its registers back. -/
theorem switchTo_restores_first :
    Restored (.of firstCall.cpu 7) (switchTo secondCall false 9).cpu := by
  have hcall : Calls twoTasks firstCall true := ⟨calling_stack, by decide, by decide⟩
  have hrun : Step twoTasks (switchTo firstCall true 7) secondCall := by
    refine .run rfl rfl fun t v hv x hx => ?_
    cases t with
    | true => cases hv
    | false =>
      have hx : Bytes 0x1000 0x2000 x ∨ Bytes 0x4000 0x4014 x := hx
      have h : SameOff (Bytes 0x2FF8 0x3000) (switchTo firstCall true 7).cpu.mem secondCall.cpu.mem :=
        ((SameOff.store (by decide)).mono fun x hx => ⟨hx.1, hx.2.trans_le (by decide)⟩).trans
          ((SameOff.store (by decide)).mono fun x hx => ⟨le_trans (by decide) hx.1, hx.2⟩)
      refine h x fun hw => ?_
      unfold Bytes at hx hw
      omega
  exact switchTo_restores (L := twoTasks) (fun _ => rfl) (.tail (.single (.swtch true 7 hcall)) hrun)
    ⟨calling_stack, by decide, by decide⟩ rfl

end ToeS.Switch
