import ToeS.Klib.Itoa

/-!
# The keyboard

Model of `keyboard_handler` of `v1/os/keyboard.c`, which runs once for every byte that the keyboard
sends. The flags for the modifiers are turned over by every code of their keys. `Typist` is a person at a
keyboard: a key sends its code when it is pressed, again as long as it is held, and its code with the high
bit when it is released. The keys of the second half of the keyboard send a byte in front.
-/

namespace ToeS.Keyboard
open Lib Vga Klib

/-! ## The handler -/

/-- The characters of a string. -/
def text (s : String) : List UInt8 := s.toList.map Char.toUInt8

/-- `kbdus`. -/
def kbdus : List UInt8 :=
  [0, 27] ++ text "1234567890-=\x08\tqwertyuiop[]\n" ++ [0] ++ text "asdfghjkl;'`" ++ [0] ++
    text "\\zxcvbnm,./" ++ [0] ++ text "*" ++ [0] ++ text " " ++ List.replicate 16 0 ++ text "-" ++
    List.replicate 3 0 ++ text "+" ++ List.replicate 49 0

/-- `mod_struct`. -/
structure Modifiers where
  capslock : Bool
  numlock : Bool
  scrolllock : Bool
  shift : Bool
  alt : Bool
  ctrl : Bool
  deriving DecidableEq

/-- The switch of `keyboard_handler`. -/
def Modifiers.scan (m : Modifiers) (scancode : UInt8) : Modifiers :=
  if scancode = 170 ∨ scancode = 42 then { m with shift := !m.shift }
  else if scancode = 184 ∨ scancode = 56 then { m with alt := !m.alt }
  else if scancode = 157 ∨ scancode = 29 then { m with ctrl := !m.ctrl }
  else if scancode = 58 then { m with capslock := !m.capslock }
  else if scancode = 70 then { m with scrolllock := !m.scrolllock }
  else if scancode = 69 then { m with numlock := !m.numlock }
  else m

/-- `modifiers`, the display, and the buffer of `itoa`. -/
structure State where
  modifiers : Modifiers
  display : Display
  itoa : Buffer

/-- C `vga_write` of `v1`, for the characters of a string. -/
def State.write (l : List UInt8) (s : State) : State :=
  { s with display := l.foldl Display.writeChar s.display }

/-- The string at the index that `itoa` returned last. -/
def str (b : Buffer) : List UInt8 := (b.buf.toList.drop b.text).takeWhile (· ≠ 0)

/-- `vga_write(itoa(scancode, 10))`. -/
def State.writeItoa (scancode : UInt8) (s : State) : Except Fault State := do
  let (buf, text) ← itoaV1 s.itoa.buf scancode.toNat 10
  let s := { s with itoa := ⟨buf, text⟩ }
  .ok (s.write (str s.itoa))

/-- C `keyboard_handler`, for the byte that it reads from the port. -/
def keyboardHandler (s : State) (scancode : UInt8) : Except Fault State :=
  let s := { s with modifiers := s.modifiers.scan scancode }
  if scancode &&& 0x80 = 0 then
    if kbdus.getD scancode.toNat 0 ≠ 0 then
      let s := if s.modifiers.shift then s.write (text "shift") else s
      let s := if s.modifiers.alt then s.write (text "alt") else s
      let s := if s.modifiers.ctrl then s.write (text "ctrl") else s
      s.writeItoa scancode
    else .ok s
  else .ok s

/-- Before the first interrupt. -/
def State.boot (d : Display) : State := ⟨⟨false, false, false, false, false, false⟩, d, .boot⟩

/-! ## The keyboard -/

/-- A key: its code, and whether a byte 0xE0 goes in front of it. -/
structure Key where
  code : Fin 128
  ext : Bool
  deriving DecidableEq

inductive Event where
  | press (k : Key)
  | again (k : Key)
  | release (k : Key)
  deriving DecidableEq

/-- What a key sends. -/
def Key.bytes (k : Key) (high : Nat) : List UInt8 :=
  (if k.ext then [0xE0] else []) ++ [.ofNat (k.code + high)]

def Event.bytes : Event → List UInt8
  | .press k | .again k => k.bytes 0
  | .release k => k.bytes 128

/-- The keys that are down, how often a key has sent its code while it was, how often it has sent it at
all, and what is to be read. -/
structure Typist where
  held : Key → Bool
  agains : Fin 128 → Nat
  downs : Fin 128 → Nat
  out : List UInt8

def Typist.start : Typist := ⟨fun _ => false, fun _ => 0, fun _ => 0, []⟩

/-- The keys of a code that are down, and the times that one of them repeated itself: an odd number. -/
def Typist.odd (t : Typist) (c : Fin 128) : Bool :=
  ((t.held ⟨c, false⟩).toNat + (t.held ⟨c, true⟩).toNat + t.agains c) % 2 = 1

/-- The modifiers and the number of a key that has a character. -/
def Typist.typed (t : Typist) (c : Fin 128) : List UInt8 :=
  if kbdus.getD c 0 ≠ 0 then
    (if t.odd 42 then text "shift" else []) ++ (if t.odd 56 then text "alt" else []) ++
      (if t.odd 29 then text "ctrl" else []) ++ numeral hexDigit 10 c
  else []

def Typist.step (t : Typist) : Event → Typist
  | .press k =>
    let t := { t with
      held := Function.update t.held k true
      downs := Function.update t.downs k.code (t.downs k.code + 1) }
    { t with out := t.out ++ t.typed k.code }
  | .again k =>
    let t := { t with
      agains := Function.update t.agains k.code (t.agains k.code + 1)
      downs := Function.update t.downs k.code (t.downs k.code + 1) }
    { t with out := t.out ++ t.typed k.code }
  | .release k => { t with held := Function.update t.held k false }

/-- A key that is pressed is not down, and one that is released or repeats itself is. -/
def Event.Legal (t : Typist) : Event → Prop
  | .press k => t.held k = false
  | .again k | .release k => t.held k = true

/-- The keyboard sends these events one after the other. -/
def Sends (t : Typist) : List Event → Prop
  | [] => True
  | e :: l => e.Legal t ∧ Sends (t.step e) l

/-- Three flags are those of their keys; a lock counts how often its key has sent its code. -/
structure Flags (m : Modifiers) (t : Typist) : Prop where
  shift : m.shift = t.odd 42
  alt : m.alt = t.odd 56
  ctrl : m.ctrl = t.odd 29
  capslock : m.capslock = decide (t.downs 58 % 2 = 1)
  scrolllock : m.scrolllock = decide (t.downs 70 % 2 = 1)
  numlock : m.numlock = decide (t.downs 69 % 2 = 1)

/-- The flags are as the keys are, and the text is on the display. -/
structure Typed (d : Display) (s : State) (t : Typist) : Prop where
  flags : Flags s.modifiers t
  display : s.display = t.out.foldl Display.writeChar d
  itoa : s.itoa.Ends

section
variable {d : Display} {s : State} {t : Typist} {b : Buffer} {buf : Vector UInt8 32} {l : List UInt8}
  {k : Key} {c code : Fin 128} {x : UInt8} {m : Modifiers} {p : Nat} {e : Event}

/-! ## The text -/

/-- The text in a buffer is what comes before its NUL. -/
lemma takeWhile_buf (S : ∀ m, IsStr (bufMem m buf) p l) (hp : p + l.length = 31) :
    (buf.toList.drop p).takeWhile (· ≠ 0) = l := by
  induction l generalizing p with
  | nil =>
    obtain rfl : p = 31 := hp
    have hnul := (bufMem_lt (by decide)).symm.trans (isStr_nil.mp (S fun _ => 0))
    rw [List.drop_eq_getElem_cons (by simp), Vector.getElem_toList, hnul, List.takeWhile_cons_of_neg (by simp)]
  | cons a l ih =>
    rw [List.length_cons] at hp
    obtain ⟨ha, hne, -⟩ := isStr_cons.mp (S fun _ => 0)
    rw [bufMem_lt (by omega)] at ha
    have htail := ih (fun m => (isStr_cons.mp (S m)).2.2) (by omega)
    rw [List.drop_eq_getElem_cons (by simp; omega), Vector.getElem_toList, ha,
      List.takeWhile_cons_of_pos (by simpa using hne), htail]

/-- `str` reads the text that the buffer holds. -/
lemma str_eq (h : b.Holds l) : str b = l := takeWhile_buf h.str h.inside

/-- The number of a key is on the display. -/
lemma writeItoa_spec (hs : s.itoa.Ends) (hx : x ≠ 0) : ∃ b : Buffer, b.Ends ∧
    s.writeItoa x = .ok (State.write (numeral hexDigit 10 x.toNat) { s with itoa := b }) := by
  have hval : (BitVec.ofNat 32 x.toNat).toNat = x.toNat := by
    have := x.toNat_lt
    rw [BitVec.toNat_ofNat]
    omega
  have hne : x.toNat ≠ 0 := fun h => hx (UInt8.toNat_inj.mp h)
  have hspec : ∀ c : Number, ∃ b, s.itoa.call .v1 c = .ok b ∧ b.Holds (c.text .v1) := fun _ =>
    Buffer.call_spec hs
  obtain ⟨b, hcall, hb⟩ := hspec ⟨.ofNat 32 x.toNat, 10, by decide, by decide⟩
  have hten : ¬ (10 : Nat) = 2 := by decide
  rw [Number.text_eq _ ⟨fun h => absurd h hten, fun _ => hval.trans_ne hne⟩] at hb
  refine ⟨b, hb.ends, ?_⟩
  rw [Buffer.call, itoaOf] at hcall
  cases hrun : itoaV1 s.itoa.buf x.toNat 10 with
  | error e =>
    rw [hval, hrun] at hcall
    cases hcall
  | ok r =>
    rw [hval, hrun] at hcall
    have hr : b = ⟨r.1, r.2⟩ := (Except.ok.inj hcall).symm
    rw [State.writeItoa, hrun]
    show Except.ok (State.write (str ⟨r.1, r.2⟩) { s with itoa := ⟨r.1, r.2⟩ }) = _
    rw [← hr, str_eq hb, hval]

/-! ## The flags -/

/-- What one byte does to the modifiers. -/
lemma scan_eq : m.scan x = ⟨m.capslock ^^ decide (x = 58), m.numlock ^^ decide (x = 69),
    m.scrolllock ^^ decide (x = 70), m.shift ^^ decide (x = 170 ∨ x = 42),
    m.alt ^^ decide (x = 184 ∨ x = 56), m.ctrl ^^ decide (x = 157 ∨ x = 29)⟩ := by
  unfold Modifiers.scan
  split_ifs with h1 h2 h3 h4 h5 h6
  · rcases h1 with rfl | rfl <;> simp
  · rcases h2 with rfl | rfl <;> simp
  · rcases h3 with rfl | rfl <;> simp
  · subst h4
    simp
  · subst h5
    simp
  · subst h6
    simp
  · simp [h1, h2, h3, h4, h5, h6]

/-- An odd number becomes an even one. -/
lemma parity_succ {a b : Nat} (h : a = b + 1 ∨ b = a + 1) : decide (a % 2 = 1) = !decide (b % 2 = 1) := by
  by_cases hb : b % 2 = 1
  · rw [decide_eq_true hb, decide_eq_false (by omega), Bool.not_true]
  · rw [decide_eq_false hb, decide_eq_true (by omega), Bool.not_false]

/-- A key that goes up or down turns over the flag of its code. -/
lemma odd_hold {v : Bool} (h : t.held k = !v) :
    ({ t with held := Function.update t.held k v } : Typist).odd c = (t.odd c ^^ decide (c = k.code)) := by
  obtain ⟨code, ext⟩ := k
  by_cases hc : c = code
  · subst hc
    rw [decide_eq_true rfl, Bool.xor_true, Typist.odd, Typist.odd]
    apply parity_succ
    cases ext <;> cases v <;> simp [h] <;> omega
  · simp [Typist.odd, hc]

/-- A repeated code changes the parity of its own key only. -/
lemma odd_again : ({ t with agains := Function.update t.agains code (t.agains code + 1) } : Typist).odd c =
    (t.odd c ^^ decide (c = code)) := by
  by_cases hc : c = code
  · subst hc
    rw [decide_eq_true rfl, Bool.xor_true, Typist.odd, Typist.odd]
    apply parity_succ
    simp [Nat.add_assoc]
  · simp [Typist.odd, hc]

/-- A key that goes down changes the parity of its own count only. -/
lemma downs_succ {f : Fin 128 → Nat} :
    decide (Function.update f code (f code + 1) c % 2 = 1) = (decide (f c % 2 = 1) ^^ decide (c = code)) := by
  by_cases hc : c = code
  · subst hc
    rw [decide_eq_true rfl, Bool.xor_true]
    apply parity_succ
    left
    rw [Function.update_self]
  · simp [hc]

/-- The codes of a key for the flags, when it is pressed. -/
lemma scan_down : m.scan (.ofNat (c + 0)) = ⟨m.capslock ^^ decide (58 = c), m.numlock ^^ decide (69 = c),
    m.scrolllock ^^ decide (70 = c), m.shift ^^ decide (42 = c), m.alt ^^ decide (56 = c),
    m.ctrl ^^ decide (29 = c)⟩ := by
  have hcode : ∀ c : Fin 128, (UInt8.ofNat (c + 0) = 58 ↔ 58 = c) ∧ (UInt8.ofNat (c + 0) = 69 ↔ 69 = c) ∧
      (UInt8.ofNat (c + 0) = 70 ↔ 70 = c) ∧
      (UInt8.ofNat (c + 0) = 170 ∨ UInt8.ofNat (c + 0) = 42 ↔ 42 = c) ∧
      (UInt8.ofNat (c + 0) = 184 ∨ UInt8.ofNat (c + 0) = 56 ↔ 56 = c) ∧
      (UInt8.ofNat (c + 0) = 157 ∨ UInt8.ofNat (c + 0) = 29 ↔ 29 = c) := by decide +kernel
  obtain ⟨h1, h2, h3, h4, h5, h6⟩ := hcode c
  rw [scan_eq]
  simp only [h1, h2, h3, h4, h5, h6]

/-- And when it is released: the locks do not change. -/
lemma scan_up : m.scan (.ofNat (c + 128)) = ⟨m.capslock, m.numlock, m.scrolllock,
    m.shift ^^ decide (42 = c), m.alt ^^ decide (56 = c), m.ctrl ^^ decide (29 = c)⟩ := by
  have hcode : ∀ c : Fin 128, (UInt8.ofNat (c + 128) ≠ 58 ∧ UInt8.ofNat (c + 128) ≠ 69 ∧
      UInt8.ofNat (c + 128) ≠ 70) ∧
      (UInt8.ofNat (c + 128) = 170 ∨ UInt8.ofNat (c + 128) = 42 ↔ 42 = c) ∧
      (UInt8.ofNat (c + 128) = 184 ∨ UInt8.ofNat (c + 128) = 56 ↔ 56 = c) ∧
      (UInt8.ofNat (c + 128) = 157 ∨ UInt8.ofNat (c + 128) = 29 ↔ 29 = c) := by decide +kernel
  obtain ⟨⟨h1, h2, h3⟩, h4, h5, h6⟩ := hcode c
  rw [scan_eq]
  simp only [h1, h2, h3, h4, h5, h6, decide_false, Bool.xor_false]

/-- The code of a key that goes down keeps the flags in step. -/
lemma Flags.down {t' : Typist} (F : Flags m t) (hodd : ∀ c, t'.odd c = (t.odd c ^^ decide (c = code)))
    (hdowns : t'.downs = Function.update t.downs code (t.downs code + 1)) :
    Flags (m.scan (.ofNat (code + 0))) t' := by
  rw [scan_down]
  constructor <;> simp only [hodd, hdowns, downs_succ, F.shift, F.alt, F.ctrl, F.capslock, F.scrolllock,
    F.numlock]

/-- The code of a key that comes up keeps the flags in step. -/
lemma Flags.up {t' : Typist} (F : Flags m t) (hodd : ∀ c, t'.odd c = (t.odd c ^^ decide (c = code)))
    (hdowns : t'.downs = t.downs) : Flags (m.scan (.ofNat (code + 128))) t' := by
  rw [scan_up]
  constructor <;> simp only [hodd, hdowns, F.shift, F.alt, F.ctrl, F.capslock, F.scrolllock, F.numlock]

/-! ## The handler and the keyboard -/

/-- Printing leaves the modifiers. -/
lemma write_modifiers : (s.write l).modifiers = s.modifiers := rfl

/-- Two texts are printed as one. -/
lemma write_write {l' : List UInt8} : (s.write l).write l' = s.write (l ++ l') := by
  simp only [State.write, List.foldl_append]

/-- A text that is printed or not is a text or none. -/
lemma write_if {q : Bool} : (if q = true then s.write l else s) = s.write (if q = true then l else []) := by
  cases q <;> rfl

/-- The byte of a key that goes down. -/
lemma handler_down (F : Flags (s.modifiers.scan (.ofNat (c + 0))) t)
    (hd : s.display = t.out.foldl Display.writeChar d) (hs : s.itoa.Ends) :
    ∃ s', keyboardHandler s (.ofNat (c + 0)) = .ok s' ∧ Typed d s' { t with out := t.out ++ t.typed c } := by
  have hlow : ∀ c : Fin 128, UInt8.ofNat (c + 0) &&& 0x80 = 0 ∧ (UInt8.ofNat (c + 0)).toNat = c.val := by
    decide +kernel
  obtain ⟨hbit, hcode⟩ := hlow c
  rw [keyboardHandler, if_pos hbit, hcode]
  by_cases hk : kbdus.getD c 0 ≠ 0
  · have hne : UInt8.ofNat (c + 0) ≠ 0 := by
      intro h0
      have hc : c.val = 0 := by rw [← hcode, h0]; rfl
      rw [hc] at hk
      exact hk rfl
    rw [if_pos hk]
    simp only [write_if, write_modifiers, F.shift, F.alt, F.ctrl]
    simp only [write_write]
    obtain ⟨s₁, hs₁⟩ : ∃ s₁ : State, s₁ = { s with modifiers := s.modifiers.scan (.ofNat (c + 0)) } :=
      ⟨_, rfl⟩
    obtain ⟨flags, hflags⟩ : ∃ flags, flags = (if t.odd 42 = true then text "shift" else []) ++
        (if t.odd 56 = true then text "alt" else []) ++ (if t.odd 29 = true then text "ctrl" else []) :=
      ⟨_, rfl⟩
    have htyped : t.typed c = flags ++ numeral hexDigit 10 c := by
      rw [Typist.typed, if_pos hk, hflags]
    have hF : Flags s₁.modifiers t := hs₁ ▸ F
    have hd₁ : s₁.display = t.out.foldl Display.writeChar d := hs₁ ▸ hd
    have hi₁ : (s₁.write flags).itoa.Ends := hs₁ ▸ hs
    obtain ⟨b, hb, hrun⟩ := writeItoa_spec hi₁ hne
    rw [← hs₁, ← hflags, hrun, htyped, hcode]
    refine ⟨_, rfl, ⟨hF.shift, hF.alt, hF.ctrl, hF.capslock, hF.scrolllock, hF.numlock⟩, ?_, hb⟩
    simp only [State.write, hd₁, List.foldl_append]
  · rw [if_neg hk]
    refine ⟨_, rfl, ⟨F.shift, F.alt, F.ctrl, F.capslock, F.scrolllock, F.numlock⟩, ?_, hs⟩
    rw [Typist.typed, if_neg hk, List.append_nil]
    exact hd

/-- A byte with the high bit only changes flags. -/
lemma handler_high (h : x &&& 0x80 ≠ 0) :
    keyboardHandler s x = .ok { s with modifiers := s.modifiers.scan x } := by
  rw [keyboardHandler, if_neg h]

/-- The byte in front of a code is of no matter. -/
lemma exec_bytes {high : Nat} :
    exec keyboardHandler s (k.bytes high) = exec keyboardHandler s [.ofNat (k.code + high)] := by
  obtain ⟨code, ext⟩ := k
  cases ext with
  | false => rfl
  | true =>
    have hscan : s.modifiers.scan 0xE0 = s.modifiers := by
      rw [scan_eq]
      simp
    have hfront : keyboardHandler s 0xE0 = .ok s := by
      rw [handler_high (by decide), hscan]
    exact exec_cons hfront

/-- One thing that is done at the keyboard. -/
lemma Typed.step (T : Typed d s t) (hl : e.Legal t) :
    ∃ s', exec keyboardHandler s e.bytes = .ok s' ∧ Typed d s' (t.step e) := by
  cases e with
  | press k =>
    have hheld : t.held k = !true := hl
    obtain ⟨s', hrun, T'⟩ := handler_down (t := { t with
      held := Function.update t.held k true
      downs := Function.update t.downs k.code (t.downs k.code + 1) })
      (T.flags.down (fun c => odd_hold hheld) rfl) T.display T.itoa
    exact ⟨s', exec_bytes.trans (exec_cons hrun), T'⟩
  | again k =>
    obtain ⟨s', hrun, T'⟩ := handler_down (t := { t with
      agains := Function.update t.agains k.code (t.agains k.code + 1)
      downs := Function.update t.downs k.code (t.downs k.code + 1) })
      (T.flags.down (fun c => odd_again) rfl) T.display T.itoa
    exact ⟨s', exec_bytes.trans (exec_cons hrun), T'⟩
  | release k =>
    have hheld : t.held k = !false := hl
    have hhigh : ∀ c : Fin 128, UInt8.ofNat (c + 128) &&& 0x80 ≠ 0 := by decide +kernel
    refine ⟨_, exec_bytes.trans (exec_cons (handler_high (hhigh k.code))), ?_, T.display, T.itoa⟩
    exact T.flags.up (fun c => odd_hold hheld) rfl

end

/-- Whatever is done at the keyboard, the handler follows it: a flag says whether the number of keys of
its code that are down, with the times that they repeated themselves, is odd, and every key with a
character that goes down or repeats itself writes the flags and its number. -/
theorem keys_typed (d : Display) (l : List Event) (h : Sends .start l) :
    ∃ s, exec keyboardHandler (.boot d) (l.flatMap Event.bytes) = .ok s ∧
      Typed d s (l.foldl Typist.step .start) := by
  have hrun : ∀ (l : List Event) (s : State) (t : Typist), Typed d s t → Sends t l →
      ∃ s', exec keyboardHandler s (l.flatMap Event.bytes) = .ok s' ∧ Typed d s' (l.foldl Typist.step t) := by
    intro l
    induction l with
    | nil => exact fun s t T _ => ⟨s, rfl, T⟩
    | cons e l ih =>
      intro s t T hl
      obtain ⟨s₁, h₁, T₁⟩ := T.step hl.1
      obtain ⟨s', h', T'⟩ := ih s₁ _ T₁ hl.2
      exact ⟨s', (List.flatMap_cons ▸ exec_append h₁).trans h', T'⟩
  exact hrun l _ _ ⟨⟨rfl, rfl, rfl, rfl, rfl, rfl⟩, rfl, Buffer.ends_boot⟩ h

/-- An `a`, with the shift key held down. -/
theorem keys_typed_shift : ∃ s, exec keyboardHandler (.boot (.init .v1 (fun _ => 0) ⟨0, fun _ => 0⟩))
      [42, 30, 158, 170] = .ok s ∧
    s.display = (text "shift30").foldl Display.writeChar (.init .v1 (fun _ => 0) ⟨0, fun _ => 0⟩) := by
  obtain ⟨s, hrun, T⟩ := keys_typed (.init .v1 (fun _ => 0) ⟨0, fun _ => 0⟩)
    [.press ⟨42, false⟩, .press ⟨30, false⟩, .release ⟨30, false⟩, .release ⟨42, false⟩]
    ⟨rfl, rfl, rfl, rfl, trivial⟩
  refine ⟨s, hrun, T.display.trans (congrArg (List.foldl _ _) ?_)⟩
  decide

end ToeS.Keyboard
