import Mathlib.Tactic
import Mathlib.Data.Nat.Digits.Lemmas

/-!
# Numerals

Numbers written in a base `b` with the characters of an alphabet, the most significant digit first.
`parse` reads a text as a number and does not know how it was written. `numeral` is the one text without
a leading zero that it reads as the number.
-/

namespace ToeS.Lib
variable {α : Type}

/-- Reads the rest of a numeral, after digits of the value `n`. -/
def parseFrom (val : α → Option Nat) (b n : Nat) : List α → Option Nat
  | [] => some n
  | c :: l => (val c).bind fun d => if d < b then parseFrom val b (n * b + d) l else none

/-- The number that a text stands for in base `b`. -/
def parse (val : α → Option Nat) (b : Nat) (l : List α) : Option Nat :=
  if l.isEmpty then none else parseFrom val b 0 l

/-- The digits of a number that is not zero. -/
def digitText (char : Nat → α) (b v : Nat) : List α := (b.digits v).reverse.map char

/-- The last digits of a number, at most `n` of them. -/
def lowText (char : Nat → α) (b : Nat) : Nat → Nat → List α
  | 0, _ => []
  | n + 1, v => if v = 0 then [] else lowText char b n (v / b) ++ [char (v % b)]

/-- The text of a number. -/
def numeral (char : Nat → α) (b v : Nat) : List α := if v = 0 then [char 0] else digitText char b v

section
variable {val : α → Option Nat} {char : Nat → α} {b v n : Nat} {l l' : List α}

/-- A text of two parts is read one after the other. -/
lemma parseFrom_append : parseFrom val b n (l ++ l') =
    (parseFrom val b n l).bind fun n => parseFrom val b n l' := by
  induction l generalizing n with
  | nil => rfl
  | cons c l ih =>
    rw [List.cons_append, parseFrom, parseFrom]
    cases val c with
    | none => rfl
    | some d =>
      rw [Option.bind_some, Option.bind_some]
      split
      · exact ih
      · rfl

/-- The last digit is the rest of the division by the base. -/
lemma digitText_step (hb : 1 < b) (hv : v ≠ 0) :
    digitText char b v = digitText char b (v / b) ++ [char (v % b)] := by
  rw [digitText, Nat.digits_def' hb (Nat.pos_of_ne_zero hv), List.reverse_cons, List.map_append]
  rfl

/-- 0 has no digits. -/
lemma digitText_zero : digitText char b 0 = [] := by rw [digitText, Nat.digits_zero]; rfl

/-- Any other number has some. -/
lemma digitText_ne_nil (hv : v ≠ 0) : digitText char b v ≠ [] := by
  rw [digitText, ne_eq, List.map_eq_nil_iff, List.reverse_eq_nil_iff]
  exact Nat.digits_ne_nil_iff_ne_zero.mpr hv

/-- A number has at most `n` digits if it is below `b ^ n`. -/
lemma digitText_length (hb : 1 < b) : (digitText char b v).length ≤ n ↔ v < b ^ n := by
  rw [digitText, List.length_map, List.length_reverse, Nat.digits_length_le_iff hb]

/-- The digits are read as the number. -/
lemma parseFrom_digitText (hb : 1 < b) (hval : ∀ d < b, val (char d) = some d) :
    parseFrom val b 0 (digitText char b v) = some v := by
  induction v using Nat.strong_induction_on with
  | _ v ih =>
    by_cases hv : v = 0
    · rw [hv, digitText_zero, parseFrom]
    · have hlt : v % b < b := Nat.mod_lt _ (by omega)
      have hdiv : v / b < v := Nat.div_lt_self (Nat.pos_of_ne_zero hv) hb
      rw [digitText_step hb hv, parseFrom_append, ih _ hdiv, Option.bind_some, parseFrom, hval _ hlt,
        Option.bind_some, if_pos hlt, parseFrom, Nat.div_add_mod']

/-- 0 has no low digits. -/
lemma lowText_zero : lowText char b n 0 = [] := by
  cases n with
  | zero => rfl
  | succ n => rw [lowText, if_pos rfl]

/-- Any other number has some, though they may all be 0. -/
lemma lowText_ne_nil (hn : n ≠ 0) (hv : v ≠ 0) : lowText char b n v ≠ [] := by
  obtain ⟨n, rfl⟩ := Nat.exists_eq_succ_of_ne_zero hn
  rw [lowText, if_neg hv]
  exact List.append_ne_nil_of_right_ne_nil _ (List.cons_ne_nil _ _)

/-- A number below `b ^ n` has no other digits. -/
lemma lowText_of_lt (hb : 1 < b) (hv : v < b ^ n) : lowText char b n v = digitText char b v := by
  induction n generalizing v with
  | zero =>
    have h0 : v = 0 := by rwa [pow_zero, Nat.lt_one_iff] at hv
    rw [h0, digitText_zero, lowText]
  | succ n ih =>
    rw [lowText]
    split
    · rename_i h0
      rw [h0, digitText_zero]
    · rename_i h0
      have hdiv : v / b < b ^ n := Nat.div_lt_of_lt_mul (by rwa [pow_succ'] at hv)
      rw [ih hdiv, ← digitText_step hb h0]

/-- The low digits are read as the remainder. -/
lemma parseFrom_lowText (hb : 1 < b) (hval : ∀ d < b, val (char d) = some d) :
    parseFrom val b 0 (lowText char b n v) = some (v % b ^ n) := by
  induction n generalizing v with
  | zero => rw [lowText, parseFrom, pow_zero, Nat.mod_one]
  | succ n ih =>
    rw [lowText]
    split
    · rename_i hv
      rw [hv, parseFrom, Nat.zero_mod]
    · have hlt : v % b < b := Nat.mod_lt _ (by omega)
      have hmod : v % b ^ (n + 1) = v / b % b ^ n * b + v % b := by
        rw [pow_succ', Nat.mod_mul, Nat.mul_comm, Nat.add_comm]
      rw [parseFrom_append, ih, Option.bind_some, parseFrom, hval _ hlt, Option.bind_some, if_pos hlt,
        parseFrom, hmod]

/-- The last digits of a number read back as its rest. -/
theorem parse_lowText (hb : 1 < b) (hval : ∀ d < b, val (char d) = some d) (hn : n ≠ 0) (hv : v ≠ 0) :
    parse val b (lowText char b n v) = some (v % b ^ n) := by
  rw [parse, List.isEmpty_eq_false_iff.mpr (lowText_ne_nil hn hv), if_neg Bool.false_ne_true,
    parseFrom_lowText hb hval]

/-- A numeral reads back as its number. -/
theorem parse_numeral (hb : 1 < b) (hval : ∀ d < b, val (char d) = some d) :
    parse val b (numeral char b v) = some v := by
  rw [numeral]
  split
  · rename_i hv
    have hlt : 0 < b := by omega
    rw [parse, List.isEmpty_cons, if_neg Bool.false_ne_true, parseFrom, hval 0 hlt, Option.bind_some,
      if_pos hlt, parseFrom, hv, Nat.zero_mul]
  · rename_i hv
    rw [parse, List.isEmpty_eq_false_iff.mpr (digitText_ne_nil hv), if_neg Bool.false_ne_true,
      parseFrom_digitText hb hval]

/-- The first digit of a number that is not zero is not zero. -/
lemma digitText_head (hb : 1 < b) (hval : ∀ d < b, val (char d) = some d) (hv : v ≠ 0) :
    (digitText char b v).head? ≠ some (char 0) := by
  have hne : b.digits v ≠ [] := Nat.digits_ne_nil_iff_ne_zero.mpr hv
  rw [digitText, List.head?_map, List.head?_reverse, List.getLast?_eq_some_getLast hne, Option.map_some]
  intro h
  have hlast := Nat.digits_lt_base hb (List.getLast_mem hne)
  have hzero := congrArg val (Option.some.inj h)
  rw [hval _ hlast, hval 0 (by omega)] at hzero
  exact Nat.getLast_digit_ne_zero b hv (Option.some.inj hzero)

/-- A numeral begins with the digit zero only if it is that digit. -/
theorem numeral_head (hb : 1 < b) (hval : ∀ d < b, val (char d) = some d)
    (h : (numeral char b v).head? = some (char 0)) : numeral char b v = [char 0] := by
  rw [numeral] at h ⊢
  split
  · rfl
  · rename_i hv
    rw [if_neg hv] at h
    exact absurd h (digitText_head hb hval hv)

end

end ToeS.Lib
