import ToeS.Lib.Memory

/-!
# A 32-bit x86 machine

The part of the processor that hand-written stubs use: the general and segment registers, a flat
memory, and the instructions that move words between them through the stack. Programs are straight
lines of instructions; `exec` runs one. A `call` is the push of its return address, and what the
callee does is up to the user of the library.

A segment register is pushed zero-extended. The arithmetic flags are left out.

`Stack` says which words are on top of the stack. It does not care where the stack is, only that the
words are not more than the address space holds, and every push and pop is a lemma about it.
-/

namespace ToeS.Lib.X86

abbrev Word := BitVec 32

/-- The general registers. -/
inductive Reg where
  | eax | ecx | edx | ebx | esp | ebp | esi | edi
  deriving DecidableEq

/-- The data segment registers. -/
inductive SegReg where
  | es | ds | fs | gs
  deriving DecidableEq

structure Machine where
  reg : Reg → Word
  seg : SegReg → BitVec 16
  cs : BitVec 16
  eip : Word
  eflags : Word
  mem : Mem

/-- The word at `a`. -/
def load (m : Mem) (a : Word) : Word := .ofNat 32 (readWord m a.toNat)

/-- Stores the word `v` at `a`. -/
def store (m : Mem) (a v : Word) : Mem := writeWord m a.toNat v.toNat

/-- Instructions, with operands in the order of the AT&T syntax. -/
inductive Instr where
  | movMR (disp : Word) (base dst : Reg)
  | movRM (src : Reg) (disp : Word) (base : Reg)
  | movIAx (imm : BitVec 16)
  | movAxS (dst : SegReg)
  | pushI (imm : Word)
  | pushR (src : Reg)
  | pushM (disp : Word) (base : Reg)
  | pushS (src : SegReg)
  | pusha
  | popR (dst : Reg)
  | popS (dst : SegReg)
  | popa
  | addI (imm : Word) (dst : Reg)
  | cli
  | cld
  | call (ret : Word)
  | ret
  | iret

namespace Machine

def setReg (m : Machine) (r : Reg) (v : Word) : Machine :=
  { m with reg := Function.update m.reg r v }

def setSeg (m : Machine) (s : SegReg) (v : BitVec 16) : Machine :=
  { m with seg := Function.update m.seg s v }

def push (m : Machine) (v : Word) : Machine :=
  { m.setReg .esp (m.reg .esp - 4) with mem := store m.mem (m.reg .esp - 4) v }

/-- Pushes the words of a list, the last one on top. -/
def pushes (m : Machine) : List Word → Machine
  | [] => m
  | v :: vs => (m.push v).pushes vs

/-- The word on top of the stack. -/
def top (m : Machine) : Word := load m.mem (m.reg .esp)

/-- Moves the stack pointer past `n` bytes. -/
def drop (m : Machine) (n : Word) : Machine := m.setReg .esp (m.reg .esp + n)

def popR (m : Machine) (r : Reg) : Machine := (m.drop 4).setReg r m.top

def popS (m : Machine) (s : SegReg) : Machine := (m.drop 4).setSeg s (m.top.setWidth 16)

def step (m : Machine) : Instr → Machine
  | .movMR disp base dst => m.setReg dst (load m.mem (m.reg base + disp))
  | .movRM src disp base => { m with mem := store m.mem (m.reg base + disp) (m.reg src) }
  | .movIAx imm => m.setReg .eax ((m.reg .eax).extractLsb' 16 16 ++ imm)
  | .movAxS dst => m.setSeg dst ((m.reg .eax).setWidth 16)
  | .pushI imm => m.push imm
  | .pushR src => m.push (m.reg src)
  | .pushM disp base => m.push (load m.mem (m.reg base + disp))
  | .pushS src => m.push ((m.seg src).setWidth 32)
  | .pusha =>
    m.pushes [m.reg .eax, m.reg .ecx, m.reg .edx, m.reg .ebx, m.reg .esp, m.reg .ebp, m.reg .esi,
      m.reg .edi]
  | .popR dst => m.popR dst
  | .popS dst => m.popS dst
  | .popa =>
    (((((((m.popR .edi).popR .esi).popR .ebp).drop 4).popR .ebx).popR .edx).popR .ecx).popR .eax
  | .addI imm dst => m.setReg dst (m.reg dst + imm)
  | .cli => { m with eflags := m.eflags &&& ~~~0x200#32 }
  | .cld => { m with eflags := m.eflags &&& ~~~0x400#32 }
  | .call ret => m.push ret
  | .ret => { m.drop 4 with eip := m.top }
  | .iret =>
    let eip := m.top
    let m := m.drop 4
    let cs := m.top.setWidth 16
    let m := m.drop 4
    { m.drop 4 with eip := eip, cs := cs, eflags := m.top }

/-- Runs the instructions of a list. -/
def exec (m : Machine) (prog : List Instr) : Machine := prog.foldl step m

end Machine

/-! ## Words in memory -/

section
variable {m m' : Mem} {a b v : Word} {ws : List Word}

/-- A word is read back also where its address is reduced modulo `2 ^ 32`. -/
lemma readWord_writeWord_mod {m : Mem} {a v : Nat} (hv : v < 4294967296) :
    readWord (writeWord m a v) a = v := by
  have hne : ∀ i j, i < 4 → j < 4 → (u32 (a + i) = u32 (a + j) ↔ i = j) := fun i j hi hj => by
    unfold u32
    omega
  have h0 : ∀ j, j < 4 → (u32 a = u32 (a + j) ↔ 0 = j) := fun j hj => hne 0 j (by omega) hj
  have h1 : ∀ j, j < 4 → (u32 (a + j) = u32 a ↔ j = 0) := fun j hj => hne j 0 hj (by omega)
  simp only [readWord, writeWord, writeByte, hne _ _ (by decide : 1 < 4) (by decide : 2 < 4),
    hne _ _ (by decide : 1 < 4) (by decide : 3 < 4), hne _ _ (by decide : 2 < 4) (by decide : 3 < 4),
    h0 _ (by decide : 1 < 4), h0 _ (by decide : 2 < 4), h0 _ (by decide : 3 < 4),
    h1 _ (by decide : 1 < 4), h1 _ (by decide : 2 < 4), h1 _ (by decide : 3 < 4)]
  simp
  omega

/-- A stored word is read back. -/
@[simp] lemma load_store : load (store m a v) a = v := by
  rw [load, store, readWord_writeWord_mod v.isLt]
  exact BitVec.ofNat_toNat 32 v ▸ BitVec.setWidth_eq v

/-- A store leaves a word alone whose bytes are others. -/
lemma load_store_ne (h : 4 ≤ (a - b).toNat) (h' : 4 ≤ (b - a).toNat) :
    load (store m b v) a = load m a := by
  have hne : ∀ i j, i < 4 → j < 4 → u32 (a.toNat + i) ≠ u32 (b.toNat + j) := by
    intro i j hi hj
    rw [BitVec.toNat_sub] at h h'
    have := a.isLt
    have := b.isLt
    unfold u32
    omega
  have h0 : ∀ x, (∀ j < 4, x ≠ u32 (b.toNat + j)) → store m b v x = m x := by
    intro x hx
    simp only [store, writeWord, writeByte]
    rw [if_neg (hx 3 (by decide)), if_neg (hx 2 (by decide)), if_neg (hx 1 (by decide))]
    exact if_neg (hx 0 (by decide))
  have hbyte : ∀ i < 4, store m b v (u32 (a.toNat + i)) = m (u32 (a.toNat + i)) :=
    fun i hi => h0 _ fun j hj => hne i j hi hj
  simp only [load, readWord]
  rw [hbyte 1 (by decide), hbyte 2 (by decide), hbyte 3 (by decide), show store m b v (u32 a.toNat) =
    m (u32 a.toNat) from hbyte 0 (by decide)]

/-- The same for two places at constant distances from one address. -/
lemma load_store_off {i j : Word} (h : 4 ≤ (j - i).toNat ∧ 4 ≤ (i - j).toNat) :
    load (store m (a + i) v) (a + j) = load m (a + j) := by
  have hij : a + j - (a + i) = j - i := by grind
  have hji : a + i - (a + j) = i - j := by grind
  exact load_store_ne (hij ▸ h.1) (hji ▸ h.2)

/-- A store changes its own four addresses. -/
lemma SameOff.store (ha : a.toNat + 4 ≤ 4294967296) :
    SameOff (Bytes a.toNat (a.toNat + 4)) m (store m a v) := SameOff.writeWord ha

/-- A word whose bytes lie off the window is unchanged. -/
lemma SameOff.load {W : Nat → Prop} (h : SameOff W m m') (ha : a.toNat + 4 ≤ 4294967296)
    (hW : ∀ x, Bytes a.toNat (a.toNat + 4) x → ¬ W x) : load m' a = load m a := by
  rw [X86.load, X86.load, h.readWord ha hW]

/-- The address after a word. -/
lemma toNat_add_four (ha : a.toNat + 4 < 4294967296) : (a + 4).toNat = a.toNat + 4 := by
  bv_omega

/-- The stack pointer goes down by four without wrapping. -/
lemma toNat_sub_four (ha : 4 ≤ a.toNat) : (a - 4).toNat = a.toNat - 4 := by
  bv_omega

/-- The words of the list are in memory from `a` on. -/
def WordsAt (m : Mem) : Word → List Word → Prop
  | _, [] => True
  | a, w :: ws => load m a = w ∧ WordsAt m (a + 4) ws

/-- Each of the words is at its place. -/
lemma wordsAt_iff : WordsAt m a ws ↔
    ∀ k, (hk : k < ws.length) → load m (a + .ofNat 32 (4 * k)) = ws[k] := by
  induction ws generalizing a with
  | nil => exact ⟨fun _ k hk => absurd hk (Nat.not_lt_zero k), fun _ => trivial⟩
  | cons w ws ih =>
    have hzero : a + .ofNat 32 (4 * 0) = a := by simp
    have hnext : ∀ k, a + .ofNat 32 (4 * (k + 1)) = a + 4 + .ofNat 32 (4 * k) := fun k => by
      rw [Nat.mul_add, BitVec.ofNat_add]
      grind
    constructor
    · rintro ⟨hw, hws⟩ k hk
      cases k with
      | zero => rwa [hzero]
      | succ k =>
        rw [hnext]
        exact ih.mp hws k (Nat.lt_of_succ_lt_succ hk)
    · intro h
      refine ⟨hzero ▸ h 0 (Nat.succ_pos _), ih.mpr fun k hk => ?_⟩
      rw [← hnext]
      exact h (k + 1) (Nat.succ_lt_succ hk)

/-- Equal words have equal bytes. -/
lemma byte_eq_of_load (h : load m a = load m' a) {i : Nat} (hi : i < 4) :
    m (u32 (a.toNat + i)) = m' (u32 (a.toNat + i)) := by
  have hword : readWord m a.toNat = readWord m' a.toNat := by
    have h := congrArg BitVec.toNat h
    rwa [load, load, BitVec.toNat_ofNat, BitVec.toNat_ofNat, Nat.mod_eq_of_lt (readWord_lt _ _),
      Nat.mod_eq_of_lt (readWord_lt _ _)] at h
  rw [← UInt8.toNat_inj]
  unfold readWord at hword
  have hlt : ∀ (m : Mem) x, (m x).toNat < 256 := fun m x => (m x).toNat_lt
  have := hlt m (u32 a.toNat)
  have := hlt m' (u32 a.toNat)
  have := hlt m (u32 (a.toNat + 1))
  have := hlt m' (u32 (a.toNat + 1))
  have := hlt m (u32 (a.toNat + 2))
  have := hlt m' (u32 (a.toNat + 2))
  match i with
  | 0 => rw [Nat.add_zero]; omega
  | 1 => omega
  | 2 => omega
  | 3 => omega

/-- Two memories that have the same words have the same bytes there. -/
lemma WordsAt.bytes (h : WordsAt m a ws) (h' : WordsAt m' a ws)
    (ha : a.toNat + 4 * ws.length ≤ 4294967296) :
    SameOff (fun x => ¬ Bytes a.toNat (a.toNat + 4 * ws.length) x) m m' := by
  intro x hx
  obtain ⟨hlo, hhi⟩ := not_not.mp hx
  have hk : (x - a.toNat) / 4 < ws.length := by omega
  have hword := (wordsAt_iff.mp h' _ hk).trans (wordsAt_iff.mp h _ hk).symm
  have hi := byte_eq_of_load hword (Nat.mod_lt (x - a.toNat) (by decide : 4 > 0))
  have hadd : (a + .ofNat 32 (4 * ((x - a.toNat) / 4))).toNat = a.toNat + 4 * ((x - a.toNat) / 4) := by
    rw [BitVec.toNat_add, BitVec.toNat_ofNat]
    omega
  rwa [hadd, show a.toNat + 4 * ((x - a.toNat) / 4) + (x - a.toNat) % 4 = x by omega,
    u32_eq (by omega)] at hi

/-- A store in front of the words leaves them alone, as long as they do not come around to it. -/
lemma WordsAt.store (h : WordsAt m a ws) (hfar : 4 ≤ (a - b).toNat)
    (hlen : (a - b).toNat + 4 * ws.length ≤ 4294967296) : WordsAt (store m b v) a ws := by
  induction ws generalizing a with
  | nil => trivial
  | cons w ws ih =>
    simp only [List.length_cons] at hlen
    have hback : 4 ≤ (b - a).toNat := by
      rw [BitVec.toNat_sub] at hfar hlen ⊢
      have := a.isLt
      have := b.isLt
      omega
    refine ⟨(load_store_ne hfar hback).trans h.1, ?_⟩
    cases ws with
    | nil => trivial
    | cons w' ws =>
      simp only [List.length_cons] at hlen ih
      have hlt : (a - b).toNat + 4 < 4294967296 := by omega
      have hnext : (a + 4 - b).toNat = (a - b).toNat + 4 := by bv_omega
      exact ih h.2 (by omega) (by omega)

/-- Words whose bytes lie off the window are unchanged. -/
lemma WordsAt.sameOff {W : Nat → Prop} (h : WordsAt m a ws) (hs : SameOff W m m')
    (ha : a.toNat + 4 * ws.length ≤ 4294967296)
    (hW : ∀ x, Bytes a.toNat (a.toNat + 4 * ws.length) x → ¬ W x) : WordsAt m' a ws := by
  induction ws generalizing a with
  | nil => trivial
  | cons w ws ih =>
    simp only [List.length_cons] at ha hW
    refine ⟨?_, ?_⟩
    · rw [SameOff.load hs (by omega) fun x hx => hW x ⟨hx.1, by have := hx.2; omega⟩]
      exact h.1
    · cases ws with
      | nil => trivial
      | cons w' ws =>
        simp only [List.length_cons] at ha hW ih
        have hnext := toNat_add_four (a := a) (by omega)
        refine ih h.2 (by omega) fun x hx => hW x ?_
        obtain ⟨hlo, hhi⟩ := hx
        exact ⟨by omega, by omega⟩

end

/-! ## The stack -/

namespace Machine

/-- The words on top of the stack, the topmost one first. -/
def Stack (m : Machine) (ws : List Word) : Prop := WordsAt m.mem (m.reg .esp) ws

section
variable {m : Machine} {r r' : Reg} {s s' : SegReg} {v w : Word} {ws : List Word} {n : Word}

/-- What the registers hold after one is written. -/
@[simp] lemma setReg_reg : (m.setReg r v).reg r' = if r' = r then v else m.reg r' := by
  simp [setReg, Function.update_apply]

/-- A write to a register leaves the segment registers alone. -/
@[simp] lemma setReg_seg : (m.setReg r v).seg = m.seg := rfl

/-- A write to a register leaves memory alone. -/
@[simp] lemma setReg_mem : (m.setReg r v).mem = m.mem := rfl

/-- A write to a register does not jump. -/
@[simp] lemma setReg_eip : (m.setReg r v).eip = m.eip := rfl

/-- What the segment registers hold after one is written. -/
@[simp] lemma setSeg_seg {v : BitVec 16} :
    (m.setSeg s v).seg s' = if s' = s then v else m.seg s' := by
  simp [setSeg, Function.update_apply]

/-- A write to a segment register leaves the other registers alone. -/
@[simp] lemma setSeg_reg {v : BitVec 16} : (m.setSeg s v).reg = m.reg := rfl

/-- A write to a segment register leaves memory alone. -/
@[simp] lemma setSeg_mem {v : BitVec 16} : (m.setSeg s v).mem = m.mem := rfl

/-- A push moves `esp` only. -/
@[simp] lemma push_reg : (m.push v).reg r = if r = .esp then m.reg .esp - 4 else m.reg r := setReg_reg

/-- A push leaves the segment registers alone. -/
@[simp] lemma push_seg : (m.push v).seg = m.seg := rfl

/-- A push writes the word below the top of the stack. -/
@[simp] lemma push_mem : (m.push v).mem = store m.mem (m.reg .esp - 4) v := rfl

/-- A push does not jump. -/
@[simp] lemma push_eip : (m.push v).eip = m.eip := rfl

/-- Dropping words moves `esp` only. -/
@[simp] lemma drop_reg : (m.drop n).reg r = if r = .esp then m.reg .esp + n else m.reg r := setReg_reg

/-- Dropping words leaves the segment registers alone. -/
@[simp] lemma drop_seg : (m.drop n).seg = m.seg := rfl

/-- Dropping words leaves memory alone. -/
@[simp] lemma drop_mem : (m.drop n).mem = m.mem := rfl

/-- A pop moves `esp` and writes its register. -/
@[simp] lemma popR_reg : (m.popR r).reg r' =
    if r' = r then m.top else if r' = .esp then m.reg .esp + 4 else m.reg r' := by
  simp [popR]

/-- A pop leaves the segment registers alone. -/
@[simp] lemma popR_seg : (m.popR r).seg = m.seg := rfl

/-- A pop leaves memory alone. -/
@[simp] lemma popR_mem : (m.popR r).mem = m.mem := rfl

/-- A pop to a segment register moves `esp` only. -/
@[simp] lemma popS_reg : (m.popS s).reg r = if r = .esp then m.reg .esp + 4 else m.reg r := by
  simp [popS]

/-- A pop to a segment register writes the low half of the word. -/
@[simp] lemma popS_seg :
    (m.popS s).seg s' = if s' = s then m.top.setWidth 16 else m.seg s' := by
  simp [popS]

/-- A pop to a segment register leaves memory alone. -/
@[simp] lemma popS_mem : (m.popS s).mem = m.mem := rfl

/-- A program of two parts runs one after the other. -/
lemma exec_append {p q : List Instr} : m.exec (p ++ q) = (m.exec p).exec q := List.foldl_append

/-- The first instruction runs first. -/
lemma exec_cons {i : Instr} {p : List Instr} : m.exec (i :: p) = (m.step i).exec p := rfl

/-- The first word is the one that `esp` points to. -/
lemma Stack.top (h : m.Stack (w :: ws)) : m.top = w := h.1

/-- What is under the words does not matter. -/
lemma Stack.nil : m.Stack [] := trivial

/-- The stack is determined by `esp` and memory. -/
lemma Stack.congr {m' : Machine} (h : m.Stack ws) (he : m'.reg .esp = m.reg .esp)
    (hm : m'.mem = m.mem) : m'.Stack ws := by
  unfold Stack
  rw [he, hm]
  exact h

/-- A push puts its word on top. -/
lemma Stack.push (h : m.Stack ws) (hlen : 4 * (ws.length + 1) ≤ 4294967296) :
    (m.push v).Stack (v :: ws) := by
  have hesp : m.reg .esp - 4 + 4 = m.reg .esp := by grind
  have hfar : (m.reg .esp - (m.reg .esp - 4)).toNat = 4 := by bv_omega
  refine ⟨?_, ?_⟩
  · simp
  · simp only [push_reg, if_true, push_mem, hesp]
    exact WordsAt.store h hfar.ge (by omega)

/-- A push changes the four bytes below the stack pointer. -/
lemma push_sameOff (h : 4 ≤ (m.reg .esp).toNat) :
    SameOff (Bytes ((m.reg .esp).toNat - 4) (m.reg .esp).toNat) m.mem (m.push v).mem := by
  have hsub := toNat_sub_four h
  have hlt := (m.reg .esp).isLt
  refine (SameOff.store (by omega)).mono fun x hx => ?_
  exact ⟨by have := hx.1; omega, by have := hx.2; omega⟩

/-- Pushes leave the registers but `esp` alone. -/
lemma pushes_reg {vs : List Word} (hr : r ≠ .esp) : (m.pushes vs).reg r = m.reg r := by
  induction vs generalizing m with
  | nil => rfl
  | cons v vs ih => rw [pushes, ih, push_reg, if_neg hr]

/-- Pushes leave the segment registers alone. -/
@[simp] lemma pushes_seg {vs : List Word} : (m.pushes vs).seg = m.seg := by
  induction vs generalizing m with
  | nil => rfl
  | cons v vs ih => rw [pushes, ih, push_seg]

/-- Pushes move `esp` by four for each word. -/
lemma pushes_esp {vs : List Word} :
    (m.pushes vs).reg .esp = m.reg .esp - .ofNat 32 (4 * vs.length) := by
  induction vs generalizing m with
  | nil => simp [pushes]
  | cons v vs ih =>
    rw [pushes, ih, push_reg, if_pos rfl, List.length_cons, Nat.mul_add, BitVec.ofNat_add]
    grind

/-- What is pushed lies on top, the last word first. -/
lemma Stack.pushes {vs : List Word} (h : m.Stack ws)
    (hlen : 4 * (ws.length + vs.length) ≤ 4294967296) : (m.pushes vs).Stack (vs.reverse ++ ws) := by
  induction vs generalizing m ws with
  | nil => exact h
  | cons v vs ih =>
    rw [List.length_cons] at hlen
    rw [List.reverse_cons, List.append_assoc]
    exact ih (h.push (by omega)) (by simp only [List.length_append, List.length_singleton]; omega)

/-- Pushes change the bytes below the stack pointer that they take. -/
lemma pushes_sameOff {vs : List Word} (h : 4 * vs.length ≤ (m.reg .esp).toNat) :
    SameOff (Bytes ((m.reg .esp).toNat - 4 * vs.length) (m.reg .esp).toNat) m.mem
      (m.pushes vs).mem := by
  induction vs generalizing m with
  | nil => exact .refl _ _
  | cons v vs ih =>
    rw [List.length_cons] at h ⊢
    have hesp : ((m.push v).reg .esp).toNat = (m.reg .esp).toNat - 4 := by
      rw [push_reg, if_pos rfl, toNat_sub_four (by omega)]
    refine ((push_sameOff (by omega)).mono fun x hx => ?_).trans
      ((ih (by omega)).mono fun x hx => ?_)
    · exact ⟨by have := hx.1; omega, hx.2⟩
    · exact ⟨by have := hx.1; omega, by have := hx.2; omega⟩

/-- Without its first word a stack is one still. -/
lemma Stack.drop (h : m.Stack (w :: ws)) : (m.drop 4).Stack ws := by
  unfold Stack
  simpa using h.2

/-- A pop takes the word on top. -/
lemma Stack.popR (h : m.Stack (w :: ws)) (hr : r ≠ .esp) : (m.popR r).Stack ws := by
  unfold Stack
  simpa [hr, hr.symm] using h.2

/-- After a pop to a segment register the other words are left. -/
lemma Stack.popS (h : m.Stack (w :: ws)) : (m.popS s).Stack ws := by
  unfold Stack
  simpa using h.2

end

end Machine

end ToeS.Lib.X86
