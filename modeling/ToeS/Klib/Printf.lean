import Mathlib.Data.List.DropRight
import ToeS.Lib.Numeral
import ToeS.Lib.Run
import ToeS.Klib.Defs

/-!
# What kprintf prints

`Prints` says what a format and its arguments stand for, and one round of the loop prints one piece of
it (`body_char`, `body_conv`). A pair of a '%' and a letter takes two bytes, so the loop meets the end of
the format exactly when the last '%' of the format has a letter. Numbers are written as numerals, which
read back.
-/

namespace ToeS.Klib
open Lib Vga

section
variable {m : Mem} {str fmt arg base i n : Nat} {l : List UInt8} {c : UInt8} {buf : Vector UInt8 32}
  {s s' : Scan} {v : BitVec 32} {p : Printer}

/-! ## Strings -/

/-- The empty string is a NUL. -/
lemma isStr_nil : IsStr m str [] ↔ m (u32 str) = 0 :=
  ⟨fun h => h.nul, fun h => ⟨fun _ hi => absurd hi (Nat.not_lt_zero _), h⟩⟩

/-- A string that is not empty begins with a byte that is no NUL. -/
lemma isStr_cons : IsStr m str (c :: l) ↔ m (u32 str) = c ∧ c ≠ 0 ∧ IsStr m (str + 1) l := by
  constructor
  · rintro ⟨hc, hnul⟩
    obtain ⟨hhead, hne⟩ := hc 0 (Nat.zero_lt_succ _)
    refine ⟨hhead, hne, fun i hi => ?_, ?_⟩
    · rw [Nat.add_assoc, Nat.add_comm 1]
      exact hc (i + 1) (Nat.succ_lt_succ hi)
    · rwa [Nat.add_assoc, Nat.add_comm 1]
  · rintro ⟨hhead, hne, hc, hnul⟩
    refine ⟨fun i hi => ?_, ?_⟩
    · cases i with
      | zero => exact ⟨hhead, hne⟩
      | succ i =>
        rw [show str + (i + 1) = str + 1 + i by omega]
        exact hc i (Nat.lt_of_succ_lt_succ hi)
    · rwa [List.length_cons, Nat.add_comm l.length, ← Nat.add_assoc]

/-- Where there is a 0 anywhere in memory, every address begins a string. -/
lemma exists_isStr (h : ∃ a, m (u32 a) = 0) (str : Nat) : ∃ l, IsStr m str l := by
  obtain ⟨a, ha⟩ := h
  have hreach : ∀ k p, m (u32 (p + k)) = 0 → ∃ l, IsStr m p l := by
    intro k
    induction k with
    | zero => exact fun p hp => ⟨[], isStr_nil.mpr hp⟩
    | succ k ih =>
      intro p hp
      by_cases h0 : m (u32 p) = 0
      · exact ⟨[], isStr_nil.mpr h0⟩
      · obtain ⟨l, hl⟩ := ih (p + 1) (by rwa [Nat.add_assoc, Nat.add_comm 1])
        exact ⟨_ :: l, isStr_cons.mpr ⟨rfl, h0, hl⟩⟩
  refine hreach (a + str * 4294967295) str ?_
  have hwrap : u32 (str + (a + str * 4294967295)) = u32 a := by
    unfold u32
    omega
  rwa [hwrap]

/-- `vga_write` returns only if there is a 0 somewhere. -/
lemma vgaWrite_ok {t t' : Vga.State} (h : vgaWrite m str t = .ok t') : ∃ a, m (u32 a) = 0 := by
  have hloop : ∀ n i t, vgaWriteLoop m str n i t = .ok t' → ∃ a, m (u32 a) = 0 := by
    intro n
    induction n with
    | zero => exact fun i t h => nomatch h
    | succ n ih =>
      intro i t h
      rw [vgaWriteLoop] at h
      by_cases h0 : m (u32 (str + i)) = 0
      · exact ⟨_, h0⟩
      · simp only [if_pos (show m (u32 (str + i)) ≠ 0 from h0)] at h
        exact ih _ _ h
  exact hloop _ _ _ h

/-! ## Numbers -/

/-- No digit is a NUL. -/
lemma hexDigit_ne_zero {d : Nat} (h : d < 16) : hexDigit d ≠ 0 := by
  revert d
  decide

/-- A store into the buffer. -/
lemma putBuf_lt (h : i < 32) : putBuf buf i c = .ok (buf.set i c) := dif_pos h

/-- The bytes of the buffer, in memory. -/
lemma bufMem_lt (h : i < 32) : bufMem m buf (u32 i) = buf[i] := by
  rw [u32_eq (by omega), bufMem, dif_pos h]

/-- A character put in front of the string at `i + 1`. -/
lemma putBuf_isStr (S : IsStr (bufMem m buf) (i + 1) l) (hi : i + 1 + l.length = 31) (hc : c ≠ 0) :
    IsStr (bufMem m (buf.set i c)) i (c :: l) := by
  have hold : ∀ j, i < j → j < 32 → bufMem m (buf.set i c) (u32 j) = bufMem m buf (u32 j) := by
    intro j hj hlt
    rw [bufMem_lt hlt, bufMem_lt hlt, Vector.getElem_set_ne (by omega) (by omega) (by omega)]
  refine isStr_cons.mpr ⟨?_, hc, fun k hk => ?_, ?_⟩
  · rw [bufMem_lt (by omega), Vector.getElem_set_self]
  · rw [hold _ (by omega) (by omega)]
    exact S.chars k hk
  · rw [hold _ (by omega) (by omega)]
    exact S.nul

/-- The loop of `itoa` puts the digits in front of what is there. -/
lemma itoaLoop_spec (hb : 1 < base) (hb' : base ≤ 16) (hi : i + 1 + l.length = 31)
    (hlen : (digitText hexDigit base n).length ≤ i) (S : ∀ m, IsStr (bufMem m buf) (i + 1) l) :
    ∃ buf' i', itoaLoop base i n buf = .ok (buf', i') ∧
      i' + 1 + (digitText hexDigit base n ++ l).length = 31 ∧
      ∀ m, IsStr (bufMem m buf') (i' + 1) (digitText hexDigit base n ++ l) := by
  induction i generalizing n l buf with
  | zero =>
    have hnil := List.length_eq_zero_iff.mp (Nat.le_zero.mp hlen)
    exact ⟨buf, 0, rfl, by rwa [hnil], by rwa [hnil]⟩
  | succ i ih =>
    rw [itoaLoop]
    by_cases hn : n = 0
    · rw [if_neg (not_not.mpr hn), hn, digitText_zero]
      exact ⟨buf, i + 1, rfl, hi, S⟩
    · have hd : n % base < 16 := (Nat.mod_lt _ (by omega)).trans_le hb'
      rw [digitText_step hb hn, List.length_append, List.length_singleton] at hlen
      have hput : ∀ m, IsStr (bufMem m (buf.set (i + 1) (hexDigit (n % base)))) (i + 1)
          (hexDigit (n % base) :: l) := fun m => putBuf_isStr (S m) hi (hexDigit_ne_zero hd)
      obtain ⟨buf', i', hrun, hlen', S'⟩ := ih (n := n / base) (by rw [List.length_cons]; omega) (by omega)
        hput
      rw [if_pos hn, putBuf_lt (by omega), ok_bind, digitText_step hb hn, List.append_assoc]
      exact ⟨buf', i', hrun, hlen', S'⟩

/-- `buf` ends in a 0, as it did before the first call. -/
def Ready (p : Printer) : Prop := p.buf[31] = 0

/-- `itoa` writes the numeral of its argument into the buffer. -/
lemma itoa_spec (hb : 8 ≤ base) (hb' : base ≤ 16) (hn : n < 4294967296) (h31 : buf[31] = 0) :
    ∃ buf' p, itoa buf n base = .ok (buf', p) ∧ buf'[31] = 0 ∧
      ∀ m, IsStr (bufMem m buf') p (numeral hexDigit base n) := by
  have hnil : ∀ m, IsStr (bufMem m buf) (30 + 1) [] := fun m =>
    isStr_nil.mpr ((bufMem_lt (by decide)).trans h31)
  rw [itoa, numeral]
  by_cases h0 : n = 0
  · have hzero : hexDigit 0 = '0'.toUInt8 := by decide
    rw [if_neg (not_not.mpr h0), if_pos h0, putBuf_lt (by decide), ok_bind, hzero]
    refine ⟨_, _, rfl, ?_, fun m => putBuf_isStr (hnil m) rfl (by decide)⟩
    rw [Vector.getElem_set_ne (by decide) (by decide) (by decide), h31]
  · have hlen : (digitText hexDigit base n).length ≤ 30 := by
      refine (digitText_length (by omega)).mpr (hn.trans_le ?_)
      calc 4294967296 ≤ 8 ^ 30 := by norm_num
        _ ≤ base ^ 30 := Nat.pow_le_pow_left hb 30
    obtain ⟨buf', i, hrun, hlen', S⟩ := itoaLoop_spec (by omega) hb' rfl hlen hnil
    rw [List.append_nil] at hlen' S
    rw [if_pos h0, if_neg h0, hrun, ok_bind]
    refine ⟨_, _, rfl, ?_, S⟩
    have hnul := (S fun _ => 0).nul
    rwa [hlen', bufMem_lt (by decide)] at hnul

/-- `vga_write(itoa(i, base))`. -/
lemma writeItoa_spec (hb : 8 ≤ base) (hb' : base ≤ 16) (hs : Ready s.out) :
    ∃ buf', writeItoa m v base s = .ok { s with
        out := ⟨(numeral hexDigit base v.toNat).foldl vgaWriteChar s.out.console, buf'⟩ } ∧
      buf'[31] = 0 := by
  obtain ⟨buf', q, hrun, h31, S⟩ := itoa_spec hb hb' v.isLt hs
  refine ⟨buf', ?_, h31⟩
  rw [writeItoa, hrun, ok_bind]
  show vgaWrite (bufMem m buf') q s.out.console >>= _ = _
  rw [vgaWrite_spec (S m), ok_bind]

/-! ## What a format stands for -/

/-- The letters of the switch. -/
def letters : List UInt8 := "cdosx".toList.map Char.toUInt8

/-- The text of a letter for its argument. -/
inductive Text (m : Mem) (v : BitVec 32) : UInt8 → List UInt8 → Prop
  | c : Text m v 'c'.toUInt8 (numeral hexDigit 10 v.toNat)
  | d : 0 ≤ v.toInt → Text m v 'd'.toUInt8 (numeral hexDigit 10 v.toNat)
  | dNeg : v.toInt < 0 → Text m v 'd'.toUInt8 ('-'.toUInt8 :: numeral hexDigit 10 (-v).toNat)
  | o : Text m v 'o'.toUInt8 (numeral hexDigit 8 v.toNat)
  | s {l : List UInt8} : IsStr m v.toNat l → Text m v 's'.toUInt8 l
  | x : Text m v 'x'.toUInt8 (numeral hexDigit 16 v.toNat)

/-- The text of a pair of a '%' and a byte, and where the next argument is. -/
inductive Conv (m : Mem) (arg : Nat) : UInt8 → List UInt8 → Nat → Prop
  | letter {c : UInt8} {t : List UInt8} :
    Text m (.ofNat 32 (readWord m arg)) c t → Conv m arg c t (u32 (arg + 4))
  | other {c : UInt8} : c ∉ letters → Conv m arg c [] arg

/-- A conversion that is not a character or a percent sign prints a text of its argument. -/
lemma Conv.text {t : List UInt8} {arg' : Nat} (h : Conv m arg c t arg') (hc : c ∈ letters) :
    Text m (.ofNat 32 (readWord m arg)) c t := by
  cases h with
  | letter h => exact h
  | other h => exact absurd hc h

/-- What a format prints. -/
inductive Prints (m : Mem) : Nat → List UInt8 → List UInt8 → Prop
  | nil {arg : Nat} : Prints m arg [] []
  | char {arg : Nat} {c : UInt8} {l o : List UInt8} :
    c ≠ '%'.toUInt8 → Prints m arg l o → Prints m arg (c :: l) (c :: o)
  | conv {arg arg' : Nat} {c : UInt8} {l t o : List UInt8} :
    Conv m arg c t arg' → Prints m arg' l o → Prints m arg ('%'.toUInt8 :: c :: l) (t ++ o)

/-- The state after a pair that printed `t`. -/
structure After (m : Mem) (c : UInt8) (s s' : Scan) : Prop where
  temp : s'.temp = s.temp
  read : s'.read = s.read
  ready : Ready s'.out
  prints : ∃ t, Conv m s.arg c t s'.arg ∧ s'.out.console = t.foldl vgaWriteChar s.out.console

/-- The switch prints the text of its letter; a string must have an end. -/
lemma convert_spec (hs : Ready s.out) (hstr : c = 's'.toUInt8 → ∀ str, ∃ l, IsStr m str l) :
    ∃ s', convert m c s = .ok s' ∧ After m c s s' := by
  have hnum : ∀ {base s₁ v t}, 8 ≤ base → base ≤ 16 → Ready (Scan.out s₁) →
      s₁.temp = s.temp → s₁.read = s.read →
      (numeral hexDigit base v.toNat).foldl vgaWriteChar s₁.out.console =
        t.foldl vgaWriteChar s.out.console → Conv m s.arg c t s₁.arg →
      ∃ s', writeItoa m v base s₁ = .ok s' ∧ After m c s s' := by
    intro base s₁ v t hb hb' hs₁ ht hr ho hc
    obtain ⟨buf', hrun, h31⟩ := writeItoa_spec (m := m) (v := v) hb hb' hs₁
    exact ⟨_, hrun, ht, hr, h31, t, hc, ho⟩
  unfold convert
  split
  · rename_i hc
    exact hnum (by decide) (by decide) hs rfl rfl rfl (.letter (hc ▸ .c))
  split
  · rename_i hc
    show ∃ s', (if (BitVec.ofNat 32 (readWord m s.arg)).toInt < 0 then _ else _) = _ ∧ _
    by_cases hneg : (BitVec.ofNat 32 (readWord m s.arg)).toInt < 0
    · rw [if_pos hneg]
      have ht : Conv m s.arg c
          ('-'.toUInt8 :: numeral hexDigit 10 (-BitVec.ofNat 32 (readWord m s.arg)).toNat) _ :=
        .letter (hc ▸ .dNeg hneg)
      exact hnum (by decide) (by decide) hs rfl rfl rfl ht
    · rw [if_neg hneg]
      exact hnum (by decide) (by decide) hs rfl rfl rfl (.letter (hc ▸ .d (not_lt.mp hneg)))
  split
  · rename_i hc
    exact hnum (by decide) (by decide) hs rfl rfl rfl (.letter (hc ▸ .o))
  split
  · rename_i hc
    obtain ⟨l, hl⟩ := hstr hc (BitVec.ofNat 32 (readWord m s.arg)).toNat
    simp only [vaArg]
    rw [vgaWrite_spec hl, ok_bind]
    exact ⟨_, rfl, rfl, rfl, hs, l, .letter (hc ▸ .s hl), rfl⟩
  split
  · rename_i hc
    exact hnum (by decide) (by decide) hs rfl rfl rfl (.letter (hc ▸ .x))
  · rename_i hc hd ho hs' hx
    refine ⟨s, rfl, rfl, rfl, hs, [], .other fun hmem => ?_, rfl⟩
    have hall : letters = ['c'.toUInt8, 'd'.toUInt8, 'o'.toUInt8, 's'.toUInt8, 'x'.toUInt8] := rfl
    rw [hall] at hmem
    simp only [List.mem_cons, List.not_mem_nil, or_false] at hmem
    tauto

/-- A conversion that returns has printed what it should. -/
lemma convert_ok (hs : Ready s.out) (h : convert m c s = .ok s') : After m c s s' := by
  have hstr : c = 's'.toUInt8 → ∀ str, ∃ l, IsStr m str l := by
    rintro rfl
    obtain ⟨t, ht, -⟩ := bind_ok.mp (show (vgaWrite m _ s.out.console >>= _) = _ from h)
    exact exists_isStr (vgaWrite_ok ht)
  obtain ⟨s₁, h₁, hafter⟩ := convert_spec hs hstr
  rw [h] at h₁
  cases h₁
  exact hafter

/-! ## One round -/

/-- A byte that is not a '%' is printed. -/
lemma body_char (hc : m (u32 (fmt + s.temp)) ≠ '%'.toUInt8) : body m fmt s =
    .ok ⟨s.temp + 1, s.arg, s.temp :: s.read,
      ⟨vgaWriteChar s.out.console (m (u32 (fmt + s.temp))), s.out.buf⟩⟩ := by
  show (if _ then _ else _) = _
  rw [if_pos hc]
  rfl

/-- A '%' takes the next byte with it. -/
lemma body_conv (hc : m (u32 (fmt + s.temp)) = '%'.toUInt8) : body m fmt s = (do
    let s ← convert m (m (u32 (fmt + (s.temp + 1))))
      ⟨s.temp + 1, s.arg, (s.temp + 1) :: s.temp :: s.read, s.out⟩
    .ok { s with temp := s.temp + 1 }) := by
  show (if _ then _ else _) = _
  rw [if_neg (not_not.mpr hc)]

/-- One round of the loop, then the others. -/
lemma scan_succ : scan m fmt (n + 1) s =
    if m (u32 (fmt + s.temp)) ≠ 0 then
      body m fmt { s with read := s.temp :: s.read } >>= scan m fmt n
    else .ok { s with read := s.temp :: s.read } := rfl

/-- No round spoils the buffer or forgets what was read. -/
lemma body_ok (hs : Ready s.out) (h : body m fmt s = .ok s') :
    Ready s'.out ∧ ∀ i ∈ s.read, i ∈ s'.read := by
  by_cases hc : m (u32 (fmt + s.temp)) = '%'.toUInt8
  · rw [body_conv hc] at h
    obtain ⟨s₁, h₁, h⟩ := bind_ok.mp h
    have hafter := convert_ok (s := ⟨s.temp + 1, s.arg, (s.temp + 1) :: s.temp :: s.read, s.out⟩) hs h₁
    cases h
    refine ⟨hafter.ready, fun i hi => ?_⟩
    show i ∈ s₁.read
    rw [hafter.read]
    exact List.mem_cons_of_mem _ (List.mem_cons_of_mem _ hi)
  · rw [body_char hc] at h
    cases h
    exact ⟨hs, fun i hi => List.mem_cons_of_mem _ hi⟩

/-- The loop keeps the buffer in order and reads every byte it comes by. -/
lemma scan_ok (hs : Ready s.out) (h : scan m fmt n s = .ok s') :
    Ready s'.out ∧ s.temp ∈ s'.read ∧ ∀ i ∈ s.read, i ∈ s'.read := by
  induction n generalizing s with
  | zero => exact nomatch h
  | succ n ih =>
    rw [scan_succ] at h
    split at h
    · obtain ⟨s₁, h₁, h⟩ := bind_ok.mp h
      obtain ⟨hs₁, hr⟩ := body_ok (s := { s with read := s.temp :: s.read }) hs h₁
      obtain ⟨hs', -, hr'⟩ := ih hs₁ h
      exact ⟨hs', hr' _ (hr _ (List.mem_cons_self ..)),
        fun i hi => hr' _ (hr _ (List.mem_cons_of_mem _ hi))⟩
    · cases h
      exact ⟨hs, List.mem_cons_self .., fun i hi => List.mem_cons_of_mem _ hi⟩

/-! ## The end of the format -/

/-- The last '%' of a format has no letter. -/
def lone : List UInt8 → Bool
  | [] => false
  | [c] => c = '%'.toUInt8
  | c :: d :: l => if c = '%'.toUInt8 then lone l else lone (d :: l)

/-- A byte that is no percent sign does not count. -/
lemma lone_cons (hc : c ≠ '%'.toUInt8) : lone (c :: l) = lone l := by
  cases l with
  | nil => exact decide_eq_false hc
  | cons d l => exact if_neg hc

/-- Percent signs leave one over if their number is odd. -/
lemma lone_replicate (k : Nat) : lone (List.replicate k '%'.toUInt8) = true ↔ ¬ Even k := by
  induction k using Nat.twoStepInduction with
  | zero => simp [lone]
  | one => simp [lone]
  | more k ih _ => rw [List.replicate_succ, List.replicate_succ, lone, if_pos rfl, ih, Nat.even_add_one,
      Nat.even_add_one, not_not]

/-- The bytes in front of the last run of '%' do not matter. -/
lemma lone_append (hl : '%'.toUInt8 ∉ l.getLast?) (k : Nat) :
    lone (l ++ List.replicate k '%'.toUInt8) = true ↔ ¬ Even k := by
  induction l using lone.induct with
  | case1 => exact lone_replicate k
  | case2 c =>
    have hc : c ≠ '%'.toUInt8 := fun h => hl (congrArg some h)
    rw [List.singleton_append, lone_cons hc, lone_replicate]
  | case3 d l ih =>
    refine (show _ ↔ _ from ?_).trans (ih ?_)
    · rw [List.cons_append, List.cons_append, lone, if_pos rfl]
    · intro h
      rw [List.getLast?_cons_cons, List.getLast?_cons, Option.mem_def.mp h] at hl
      exact hl rfl
  | case4 c d l hc ih =>
    rw [List.cons_append, lone_cons hc, ih]
    rwa [List.getLast?_cons_cons] at hl

/-- The '%' pair up exactly if the format ends in an even number of them. -/
lemma lone_iff : lone l = true ↔ ¬ Even (l.rtakeWhile (· = '%'.toUInt8)).length := by
  have hrun : l.rtakeWhile (· = '%'.toUInt8) =
      List.replicate (l.rtakeWhile (· = '%'.toUInt8)).length '%'.toUInt8 :=
    List.eq_replicate_iff.mpr ⟨rfl, fun c hc => by simpa using List.mem_rtakeWhile_imp hc⟩
  have hsplit : l.rdropWhile (· = '%'.toUInt8) ++ l.rtakeWhile (· = '%'.toUInt8) = l :=
    List.rdropWhile_append_rtakeWhile
  have hlast : '%'.toUInt8 ∉ (l.rdropWhile (· = '%'.toUInt8)).getLast? := by
    intro h
    obtain ⟨hne, hc⟩ := List.mem_getLast?_eq_getLast h
    have := List.rdropWhile_last_not _ _ hne
    rw [← hc] at this
    exact this (decide_eq_true rfl)
  have h := lone_append hlast (l.rtakeWhile (· = '%'.toUInt8)).length
  rwa [← hrun, hsplit] at h

/-! ## The loop -/

/-- The loop stops at a NUL. -/
lemma scan_nul (h : m (u32 (fmt + s.temp)) = 0) :
    scan m fmt (n + 1) s = .ok { s with read := s.temp :: s.read } := by
  rw [scan_succ, if_neg (not_not.mpr h)]

/-- The loop prints a byte that is no percent sign. -/
lemma scan_char (h : IsStr m (fmt + s.temp) (c :: l)) (hc : c ≠ '%'.toUInt8) :
    scan m fmt (n + 1) s = scan m fmt n ⟨s.temp + 1, s.arg, s.temp :: s.temp :: s.read,
      ⟨vgaWriteChar s.out.console c, s.out.buf⟩⟩ := by
  obtain ⟨hm, hne, -⟩ := isStr_cons.mp h
  rw [scan_succ, if_pos (hm ▸ hne), body_char (s := ⟨s.temp, s.arg, s.temp :: s.read, s.out⟩) (hm ▸ hc),
    ok_bind, hm]

/-- The loop converts what comes behind a percent sign. -/
lemma scan_conv (h : m (u32 (fmt + s.temp)) = '%'.toUInt8) :
    scan m fmt (n + 1) s = (do
      let s ← convert m (m (u32 (fmt + (s.temp + 1))))
        ⟨s.temp + 1, s.arg, (s.temp + 1) :: s.temp :: s.temp :: s.read, s.out⟩
      scan m fmt n { s with temp := s.temp + 1 }) := by
  rw [scan_succ, if_pos (h ▸ by decide), body_conv (s := ⟨s.temp, s.arg, s.temp :: s.read, s.out⟩) h,
    bind_assoc]
  rfl

/-- The loop meets the end of a format whose '%' pair up. -/
lemma scan_spec (hl : IsStr m (fmt + s.temp) l) (hn : l.length < n) (hp : lone l = false)
    (hs : Ready s.out) : ∃ s' o, scan m fmt n s = .ok s' ∧
      (∀ i ∈ s'.read, i ∈ s.read ∨ i ≤ s.temp + l.length) ∧ Prints m s.arg l o ∧
      s'.out.console = o.foldl vgaWriteChar s.out.console := by
  have hstr := exists_isStr ⟨_, hl.nul⟩
  induction n generalizing s l with
  | zero => exact absurd hn (Nat.not_lt_zero _)
  | succ n ih =>
    cases l with
    | nil =>
      refine ⟨_, [], scan_nul (isStr_nil.mp hl), fun i hi => ?_, .nil, rfl⟩
      rcases List.mem_cons.mp hi with rfl | hi
      · exact .inr (Nat.le_add_right ..)
      · exact .inl hi
    | cons c l =>
      obtain ⟨hm, -, hl'⟩ := isStr_cons.mp hl
      rw [List.length_cons] at hn ⊢
      by_cases hc : c = '%'.toUInt8
      · cases l with
        | nil => exact absurd hp (by rw [hc]; decide)
        | cons d l =>
          obtain ⟨hd, -, hl⟩ := isStr_cons.mp hl'
          rw [lone, if_pos hc] at hp
          rw [List.length_cons] at hn ⊢
          obtain ⟨s₁, h₁, htemp, hread, hs₁, t, hconv, ht⟩ := convert_spec (m := m) (c := d)
            (s := ⟨s.temp + 1, s.arg, (s.temp + 1) :: s.temp :: s.temp :: s.read, s.out⟩) hs
            fun _ => hstr
          obtain ⟨s', o, hrun, hread', hprints, hout⟩ := ih (s := { s₁ with temp := s₁.temp + 1 })
            (l := l) (by rw [htemp]; exact hl) (by omega) hp hs₁
          refine ⟨s', t ++ o, ?_, fun i hi => ?_, hc ▸ .conv hconv hprints, ?_⟩
          · rw [scan_conv (hm.trans hc), ← Nat.add_assoc, hd, h₁, ok_bind, hrun]
          · have htemp : s₁.temp = s.temp + 1 := htemp
            have hi : i ∈ s₁.read ∨ i ≤ s₁.temp + 1 + l.length := hread' i hi
            rw [hread, htemp] at hi
            simp only [List.mem_cons] at hi
            rcases hi with (hi | hi | hi | hi) | hi
            all_goals first | exact .inl hi | exact .inr (by omega)
          · rw [hout, ht, List.foldl_append]
      · rw [lone_cons hc] at hp
        obtain ⟨s', o, hrun, hread, hprints, hout⟩ := ih
          (s := ⟨s.temp + 1, s.arg, s.temp :: s.temp :: s.read,
            ⟨vgaWriteChar s.out.console c, s.out.buf⟩⟩) hl' (by omega) hp hs
        refine ⟨s', c :: o, (scan_char hl hc).trans hrun, fun i hi => ?_, .char hc hprints, hout⟩
        have hi : i ∈ s.temp :: s.temp :: s.read ∨ i ≤ s.temp + 1 + l.length := hread i hi
        simp only [List.mem_cons] at hi
        rcases hi with (hi | hi | hi) | hi
        all_goals first | exact .inl hi | exact .inr (by omega)

/-- Behind a '%' without a letter the loop goes on after the end of the format. -/
lemma scan_lone (hl : IsStr m (fmt + s.temp) l) (hp : lone l = true) (hs : Ready s.out)
    (h : scan m fmt n s = .ok s') : s.temp + l.length + 1 ∈ s'.read := by
  induction n generalizing s l with
  | zero => exact nomatch h
  | succ n ih =>
    cases l with
    | nil => exact nomatch hp
    | cons c l =>
      obtain ⟨hm, -, hl'⟩ := isStr_cons.mp hl
      by_cases hc : c = '%'.toUInt8
      · rw [scan_conv (hm.trans hc)] at h
        obtain ⟨s₁, h₁, h⟩ := bind_ok.mp h
        obtain ⟨htemp, -, hs₁, -⟩ := convert_ok
          (s := ⟨s.temp + 1, s.arg, (s.temp + 1) :: s.temp :: s.temp :: s.read, s.out⟩) hs h₁
        have htemp : s₁.temp = s.temp + 1 := htemp
        cases l with
        | nil =>
          have hlast : s.temp + [c].length + 1 = s₁.temp + 1 := by rw [htemp]; rfl
          rw [hlast]
          exact (scan_ok (s := { s₁ with temp := s₁.temp + 1 }) hs₁ h).2.1
        | cons d l =>
          rw [lone, if_pos hc] at hp
          have hmem := ih (s := { s₁ with temp := s₁.temp + 1 }) (l := l)
            (by rw [htemp]; exact (isStr_cons.mp hl').2.2) hp hs₁ h
          have hlast : s.temp + (c :: d :: l).length + 1 = s₁.temp + 1 + l.length + 1 := by
            rw [htemp, List.length_cons, List.length_cons]
            omega
          rwa [hlast]
      · rw [lone_cons hc] at hp
        rw [scan_char hl hc] at h
        have hmem := ih (s := ⟨s.temp + 1, s.arg, s.temp :: s.temp :: s.read,
          ⟨vgaWriteChar s.out.console c, s.out.buf⟩⟩) hl' hp hs h
        have hlast : s.temp + (c :: l).length + 1 = s.temp + 1 + l.length + 1 := by
          rw [List.length_cons]
          omega
        rwa [hlast]

/-- `kprintf` returns, has read nothing behind the end of the format, and has printed what the format
stands for. -/
def Stops (m : Mem) (fmt arg : Nat) (p : Printer) (l : List UInt8) : Prop :=
  ∃ s o, kprintf m fmt arg p = .ok s ∧ (∀ i ∈ s.read, i ≤ l.length) ∧ Prints m arg l o ∧
    s.out.console = o.foldl vgaWriteChar p.console

/-- `kprintf` stops at the end of a format in which no percent sign is left over at the end. -/
lemma stops_iff_lone (hp : Ready p) (hl : IsStr m fmt l) : Stops m fmt arg p l ↔ lone l = false := by
  constructor
  · rintro ⟨s, o, hrun, hread, -⟩
    by_contra h
    have hlast := hread _ (scan_lone hl (Bool.not_eq_false _ ▸ h) hp hrun)
    simp only at hlast
    omega
  · intro h
    obtain ⟨s, o, hrun, hread, hprints, hout⟩ :=
      scan_spec (s := ⟨0, arg, [], p⟩) hl hl.length_lt h hp
    refine ⟨s, o, hrun, fun i hi => ?_, hprints, hout⟩
    rcases hread i hi with hi | hi
    · exact absurd hi List.not_mem_nil
    · exact hi.trans_eq (Nat.zero_add _)

/-- After any calls the buffer ends in a 0. -/
lemma ready_calls {console : Vga.State} {calls : List Call}
    (h : exec call (.boot console) calls = .ok p) : Ready p := by
  have hboot : Ready (.boot console) := Vector.getElem_replicate ..
  have hl : LegalRun call (fun _ _ => True) (.boot console) calls := .of_forall fun _ _ => trivial
  refine exec_ok_inv (fun p c p' hp _ hc => ?_) hboot hl h
  rw [call] at hc
  cases hrun : kprintf c.mem c.fmt c.arg p with
  | error e =>
    rw [hrun] at hc
    exact nomatch hc
  | ok s =>
    rw [hrun] at hc
    cases hc
    exact (scan_ok hp hrun).1

/-- `kprintf` stops at the end of its format exactly if the format ends in an even number of '%'. -/
theorem stops_iff {console : Vga.State} {calls : List Call}
    (hp : exec call (.boot console) calls = .ok p) (hl : IsStr m fmt l) :
    Stops m fmt arg p l ↔ Even (l.rtakeWhile (· = '%'.toUInt8)).length := by
  rw [stops_iff_lone (ready_calls hp) hl, ← Bool.not_eq_true, lone_iff, not_not]

/-- A format of two '%'. -/
theorem stops_iff_pair :
    Stops (fun a => if a < 2 then 37 else 0) 0 0 (.boot (Vga.boot fun _ => 0)) [37, 37] ↔
      Even (([37, 37] : List UInt8).rtakeWhile (· = '%'.toUInt8)).length := by
  have hp : exec call (.boot (Vga.boot fun _ => 0)) [] = .ok (.boot (Vga.boot fun _ => 0)) := rfl
  exact stops_iff hp ⟨by decide, by decide⟩

/-- A format that is one '%'. -/
theorem not_stops_percent :
    IsStr (fun a => if a = 0 then 37 else 0) 0 [37] ∧
      ¬ Stops (fun a => if a = 0 then 37 else 0) 0 0 (.boot (Vga.boot fun _ => 0)) [37] := by
  have hl : IsStr (fun a => if a = 0 then 37 else 0) 0 [37] := ⟨by decide, by decide⟩
  have hrun : exec call (.boot (Vga.boot fun _ => 0)) [] = .ok (.boot (Vga.boot fun _ => 0)) := rfl
  have hp := ready_calls hrun
  refine ⟨hl, fun h => ?_⟩
  have hlone := (stops_iff_lone hp hl).mp h
  exact absurd hlone (by decide)

/-! ## Reading numbers back -/

/-- The value of a digit. -/
def digitVal (c : UInt8) : Option Nat :=
  if '0'.toUInt8 ≤ c ∧ c ≤ '9'.toUInt8 then some (c.toNat - '0'.toNat)
  else if 'a'.toUInt8 ≤ c ∧ c ≤ 'f'.toUInt8 then some (c.toNat - 'a'.toNat + 10)
  else none

/-- A digit has its value. -/
lemma digitVal_hexDigit {d : Nat} (h : d < 16) : digitVal (hexDigit d) = some d := by
  revert d
  decide

/-- A text is a number in base `b`, and begins with a zero only if it is "0". -/
structure Reads (b : Nat) (t : List UInt8) (n : Nat) : Prop where
  value : parse digitVal b t = some n
  head : t.head? = some '0'.toUInt8 → t = ['0'.toUInt8]

/-- A text is a decimal number that may have a sign. -/
def ReadsSigned (t : List UInt8) (z : Int) : Prop :=
  (∃ n : Nat, Reads 10 t n ∧ z = n) ∨ ∃ u, ∃ n : Nat, t = '-'.toUInt8 :: u ∧ Reads 10 u n ∧ z = -n

/-- A text reads back as the argument of its letter. -/
structure ReadsBack (c : UInt8) (v : BitVec 32) (t : List UInt8) : Prop where
  d : c = 'd'.toUInt8 → ReadsSigned t v.toInt
  o : c = 'o'.toUInt8 → Reads 8 t v.toNat
  x : c = 'x'.toUInt8 → Reads 16 t v.toNat

/-- A numeral reads as its number. -/
lemma reads_numeral (hb : 1 < base) (hb' : base ≤ 16) : Reads base (numeral hexDigit base n) n := by
  have hval : ∀ d < base, digitVal (hexDigit d) = some d := fun d hd =>
    digitVal_hexDigit (hd.trans_le hb')
  exact ⟨parse_numeral hb hval, numeral_head hb hval⟩

/-- A printed number reads as the argument. -/
lemma Text.readsBack {t : List UInt8} (h : Text m v c t) (hc : c ≠ 's'.toUInt8) : ReadsBack c v t := by
  cases h with
  | c => exact ⟨fun h => absurd h (by decide), fun h => absurd h (by decide), fun h => absurd h (by decide)⟩
  | d hv =>
    have hval : v.toInt = v.toNat := by
      rw [BitVec.toInt_eq_toNat_cond] at hv ⊢
      omega
    exact ⟨fun _ => .inl ⟨_, reads_numeral (by decide) (by decide), hval⟩,
      fun h => absurd h (by decide), fun h => absurd h (by decide)⟩
  | dNeg hv =>
    -- the negation of -2^31 is 2^31 as an unsigned number
    have hval : v.toInt = -(-v).toNat := by
      have := v.isLt
      rw [BitVec.toNat_neg]
      rw [BitVec.toInt_eq_toNat_cond] at hv ⊢
      omega
    exact ⟨fun _ => .inr ⟨_, _, rfl, reads_numeral (by decide) (by decide), hval⟩,
      fun h => absurd h (by decide), fun h => absurd h (by decide)⟩
  | o => exact ⟨fun h => absurd h (by decide), fun _ => reads_numeral (by decide) (by decide),
      fun h => absurd h (by decide)⟩
  | s => exact absurd rfl hc
  | x => exact ⟨fun h => absurd h (by decide), fun h => absurd h (by decide),
      fun _ => reads_numeral (by decide) (by decide)⟩

/-- In any call after any others, a pair of a '%' and the letter of a number is printed as a text that
reads back as the argument, and `itoa` stays inside its buffer. -/
theorem numbers_read_back {console : Vga.State} {calls : List Call} {rounds : List Unit}
    (hp : exec call (.boot console) calls = .ok p)
    (hs : exec (fun s _ => body m fmt s) ⟨0, arg, [], p⟩ rounds = .ok s)
    (hm : m (u32 (fmt + s.temp)) = '%'.toUInt8) (hd : m (u32 (fmt + (s.temp + 1))) = c)
    (hc : c ∈ letters) (hc' : c ≠ 's'.toUInt8) :
    ∃ s' t, body m fmt s = .ok s' ∧ s'.out.console = t.foldl vgaWriteChar s.out.console ∧
      ReadsBack c (.ofNat 32 (readWord m s.arg)) t := by
  have hl : LegalRun (fun s _ => body m fmt s) (fun _ _ => True) ⟨0, arg, [], p⟩ rounds :=
    .of_forall fun _ _ => trivial
  have hready : Ready s.out := exec_ok_inv (I := fun s => Ready s.out)
    (fun _ _ _ hs _ h => (body_ok hs h).1) (ready_calls hp) hl hs
  obtain ⟨s', h', -, -, -, t, hconv, ht⟩ := convert_spec (m := m) (c := c)
    (s := ⟨s.temp + 1, s.arg, (s.temp + 1) :: s.temp :: s.read, s.out⟩) hready
    fun h => absurd h hc'
  refine ⟨{ s' with temp := s'.temp + 1 }, t, ?_, ht, ?_⟩
  · rw [body_conv hm, hd, h', ok_bind]
  · exact (hconv.text hc).readsBack hc'

/-- The smallest number. -/
theorem numbers_read_back_min : ∃ s' t,
    body (fun a => if a = 0 then 37 else if a = 1 then 100 else if a = 11 then 0x80 else 0) 0
      ⟨0, 8, [], .boot (Vga.boot fun _ => 0)⟩ = .ok s' ∧
    s'.out.console = t.foldl vgaWriteChar (Vga.boot fun _ => 0) ∧
    ReadsBack 'd'.toUInt8 (.ofNat 32 (readWord
      (fun a => if a = 0 then 37 else if a = 1 then 100 else if a = 11 then 0x80 else 0) 8)) t := by
  have hp : exec call (.boot (Vga.boot fun _ => 0)) [] = .ok (.boot (Vga.boot fun _ => 0)) := rfl
  exact numbers_read_back hp exec_nil (by decide) (by decide) (by decide) (by decide)

end

end ToeS.Klib
