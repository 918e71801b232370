import Mathlib.Data.List.Chain
import IrSurvey.Code.Literal
import IrSurvey.Proofs.Text.Bytes
import IrSurvey.Proofs.Text.Digit

/-!
What an escaped text says inside a C string literal. A reader takes the literal character by
character, and the number of an escape goes on as long as digits follow. So a digit of the text may
be read as part of the escape in front of it, and the bytes of the text come back exactly if none
is and every control character is one byte.
-/
namespace IrSurvey.CLiteral
open Text

/-! ## Reading a literal -/

/-- The value of a digit in a base up to sixteen. -/
def digit? (base : Nat) (c : Char) : Option Nat :=
  (hexValue? c).filter (· < base)

/-- The number of an escape as far as it has been read, and how many more digits it may have if
there is a limit. -/
structure Number where
  base : Nat
  room : Option Nat
  value : Nat
deriving DecidableEq, Repr

namespace Number

/-- An octal number has at most three digits. -/
def octal (first : Nat) : Number :=
  { base := 8, room := some 2, value := first }

def hex (value : Nat) : Number :=
  { base := 16, room := none, value }

/-- The digit with which a number goes on. -/
def next? (n : Number) (c : Char) : Option Nat :=
  if n.room = some 0 then none else digit? n.base c

def push (n : Number) (digit : Nat) : Number :=
  { n with room := n.room.map (· - 1), value := n.value * n.base + digit }

/-- The byte that a number stands for. -/
def byte? (n : Number) : Option UInt8 :=
  if n.value < 256 then some (UInt8.ofNat n.value) else none

end Number

/-- What the characters read so far leave open. -/
inductive Mode
  | plain
  | escape
  | hex
  | number (n : Number)
deriving DecidableEq, Repr

/-- The byte of an escape of one letter. -/
def letterByte? : Char → Option UInt8
  | '\\' => some 0x5C
  | '"' => some 0x22
  | '\'' => some 0x27
  | '?' => some 0x3F
  | 'a' => some 0x07
  | 'b' => some 0x08
  | 't' => some 0x09
  | 'n' => some 0x0A
  | 'v' => some 0x0B
  | 'f' => some 0x0C
  | 'r' => some 0x0D
  | _ => none

/-- A character outside every escape. A quote would end the literal, and a newline may not stand in
it. -/
def stepPlain (c : Char) : Option (List UInt8 × Mode) :=
  if c = '\\' then some ([], .escape)
  else if c = '"' ∨ c = '\n' then none
  else some (String.utf8EncodeChar c, .plain)

def stepEscape (c : Char) : Option (List UInt8 × Mode) :=
  if c = 'x' then some ([], .hex)
  else match digit? 8 c with
    | some d => some ([], .number (.octal d))
    | none => (letterByte? c).map fun b => ([b], .plain)

/-- The first character that is no digit of the number ends it. -/
def stepNumber (n : Number) (c : Char) : Option (List UInt8 × Mode) :=
  match n.next? c with
  | some d => some ([], .number (n.push d))
  | none => n.byte?.bind fun b => (stepPlain c).map fun (bs, mode) => (b :: bs, mode)

/-- The bytes that a character completes, and what is open behind it. -/
def step : Mode → Char → Option (List UInt8 × Mode)
  | .plain, c => stepPlain c
  | .escape, c => stepEscape c
  | .hex, c => (digit? 16 c).map fun d => ([], .number (.hex d))
  | .number n, c => stepNumber n c

def finish : Mode → Option (List UInt8)
  | .plain => some []
  | .escape => none
  | .hex => none
  | .number n => n.byte?.map ([·])

def run : Mode → List Char → Option (List UInt8)
  | mode, [] => finish mode
  | mode, c :: s => (step mode c).bind fun (bs, next) => (run next s).map (bs ++ ·)

/-- The bytes that the contents of a C string literal stand for, `none` if they are ill-formed. -/
def read? (s : List Char) : Option (List UInt8) :=
  run .plain s

/-! ## Steps -/

/-- A character that completes no byte. -/
theorem run_cons_of_silent {mode next : Mode} {c : Char} (h : step mode c = some ([], next))
    (s : List Char) : run mode (c :: s) = run next s := by
  rw [run, h]
  cases hrun : run next s with
  | none => simp [hrun]
  | some bs => simp [hrun]

theorem run_plain_cons {c : Char} (hbackslash : c ≠ '\\') (hquote : c ≠ '"') (hnewline : c ≠ '\n')
    (s : List Char) :
    run .plain (c :: s) = (run .plain s).map (String.utf8EncodeChar c ++ ·) := by
  simp [run, step, stepPlain, hbackslash, hquote, hnewline]

theorem run_backslash (s : List Char) : run .plain ('\\' :: s) = run .escape s :=
  run_cons_of_silent rfl s

theorem run_letter {letter c : Char}
    (h : stepEscape letter = some (String.utf8EncodeChar c, .plain)) (s : List Char) :
    run .plain ('\\' :: letter :: s) = (run .plain s).map (String.utf8EncodeChar c ++ ·) := by
  rw [run_backslash, run, step, h]
  rfl

theorem run_number_digit {n : Number} {c : Char} {d : Nat} (h : n.next? c = some d)
    (s : List Char) : run (.number n) (c :: s) = run (.number (n.push d)) s :=
  run_cons_of_silent (by simp [step, stepNumber, h]) s

/-- A number that does not go on is one byte. -/
theorem run_number_end {n : Number} {s : List Char} (h : ∀ c ∈ s.head?, n.next? c = none) :
    run (.number n) s = n.byte?.bind fun b => (run .plain s).map (b :: ·) := by
  cases s with
  | nil => cases hbyte : n.byte? <;> simp [run, finish, hbyte]
  | cons c s =>
      have hc : n.next? c = none := h c rfl
      cases hbyte : n.byte? with
      | none => simp [run, step, stepNumber, hc, hbyte]
      | some b =>
          cases hstep : stepPlain c with
          | none => simp [run, step, stepNumber, hc, hbyte, hstep]
          | some p => simp [run, step, stepNumber, hc, hbyte, hstep, Function.comp_def]

/-! ## Escapes are read one by one -/

/-- A control character that has no escape of its own is written in hexadecimal. -/
def InHex (c : Char) : Prop :=
  isControl c = true ∧ c.toNat ≠ 0 ∧ c ≠ '\n' ∧ c ≠ '\r' ∧ c ≠ '\t'

instance (c : Char) : Decidable (InHex c) :=
  inferInstanceAs (Decidable (_ ∧ _))

theorem InHex.toNat_lt {c : Char} (h : InHex c) : c.toNat < 256 := by
  have hcontrol := h.1
  simp only [isControl, Bool.or_eq_true, Bool.and_eq_true, decide_eq_true_eq] at hcontrol
  omega

/-- The number that the escape of a character leaves open. -/
def open? (c : Char) : Option Number :=
  if c.toNat = 0 then some (.octal 0)
  else if InHex c then some (.hex c.toNat)
  else none

theorem open?_eq_none_iff {c : Char} : open? c = none ↔ c.toNat ≠ 0 ∧ ¬ InHex c := by
  unfold open?
  split
  next hzero => simp [hzero]
  next hzero =>
      split
      next hhex => simp [hhex]
      next hhex => simp [hzero, hhex]

theorem open?_eq_some_iff {c : Char} {n : Number} :
    open? c = some n ↔ (c.toNat = 0 ∧ n = .octal 0) ∨ (InHex c ∧ n = .hex c.toNat) := by
  unfold open?
  split
  next hzero =>
      have hhex : ¬ InHex c := fun h => h.2.1 hzero
      simp [hzero, hhex, eq_comm]
  next hzero =>
      split
      next hhex => simp [hzero, hhex, eq_comm]
      next hhex => simp [hzero, hhex]

theorem digit?_digitChar {k : Nat} (h : k < 16) : digit? 16 (Nat.digitChar k) = some k := by
  simp [digit?, hexValue?_digitChar h, h]

theorem run_hexPair_append {n : Nat} (h : n < 256) (s : List Char) :
    run .hex (hexPair n ++ s) = run (.number (.hex n)) s := by
  have hhigh : digit? 16 (Nat.digitChar (n / 16)) = some (n / 16) := digit?_digitChar (by omega)
  have hlow : (Number.hex (n / 16)).next? (Nat.digitChar (n % 16)) = some (n % 16) :=
    digit?_digitChar (by omega)
  have hvalue : (Number.hex (n / 16)).push (n % 16) = Number.hex n := by
    simp only [Number.hex, Number.push, Number.mk.injEq, Option.map_none, true_and]
    omega
  calc run .hex (hexPair n ++ s)
      = run (.number (.hex (n / 16))) (Nat.digitChar (n % 16) :: s) :=
        run_cons_of_silent (by simp [step, hhigh]) _
    _ = run (.number (.hex n)) s := by rw [run_number_digit hlow, hvalue]

theorem run_escapeChar_append {c : Char} (h : open? c = none) (s : List Char) :
    run .plain (escapeChar c ++ s) = (run .plain s).map (String.utf8EncodeChar c ++ ·) := by
  obtain ⟨hzero, hhex⟩ := open?_eq_none_iff.1 h
  unfold escapeChar
  split
  case h_6 hbackslash hquote hnewline hreturn htab =>
      have hcontrol : ¬ isControl c = true := fun hc =>
        hhex ⟨hc, hzero, hnewline, hreturn, htab⟩
      rw [if_neg hzero, if_neg hcontrol]
      exact run_plain_cons hbackslash hquote hnewline s
  all_goals exact run_letter (by decide) s

theorem escapeChar_of_inHex {c : Char} (h : InHex c) :
    escapeChar c = '\\' :: 'x' :: hexPair c.toNat := by
  obtain ⟨hcontrol, hzero, hnewline, hreturn, htab⟩ := h
  unfold escapeChar
  split
  case h_6 => rw [if_neg hzero, if_pos hcontrol]
  case h_1 => exact absurd hcontrol (by decide)
  case h_2 => exact absurd hcontrol (by decide)
  case h_3 => exact absurd rfl hnewline
  case h_4 => exact absurd rfl hreturn
  case h_5 => exact absurd rfl htab

theorem escapeChar_of_toNat_eq_zero {c : Char} (h : c.toNat = 0) : escapeChar c = ['\\', '0'] := by
  obtain rfl : c = '\x00' := by rw [← Char.ofNat_toNat c, h]
  rfl

theorem run_escapeChar_append_of_open {c : Char} {n : Number} (h : open? c = some n)
    (s : List Char) : run .plain (escapeChar c ++ s) = run (.number n) s := by
  rcases open?_eq_some_iff.1 h with ⟨hzero, rfl⟩ | ⟨hhex, rfl⟩
  · rw [escapeChar_of_toNat_eq_zero hzero]
    exact (run_backslash _).trans (run_cons_of_silent (by decide) s)
  · rw [escapeChar_of_inHex hhex, ← run_hexPair_append hhex.toNat_lt]
    exact (run_backslash _).trans (run_cons_of_silent rfl _)

/-! ## Digits behind an escape -/

/-- A digit that is read as part of the escape in front of it: an octal one behind NUL, and a
hexadecimal one behind a character in hexadecimal. -/
def Continues (c d : Char) : Prop :=
  (c.toNat = 0 ∧ (digit? 8 d).isSome) ∨ (InHex c ∧ (digit? 16 d).isSome)

/-- A control character beyond ASCII. It has two bytes, and its escape stands for one. -/
def Wide (c : Char) : Prop :=
  isControl c = true ∧ 128 ≤ c.toNat

/-- No escape stands for fewer bytes than its character has, and none goes on in the text. -/
structure Separable (s : List Char) : Prop where
  narrow : ∀ c ∈ s, ¬ Wide c
  apart : s.IsChain fun c d => ¬ Continues c d

instance (c d : Char) : Decidable (Continues c d) :=
  inferInstanceAs (Decidable (_ ∨ _))

instance (c : Char) : Decidable (Wide c) :=
  inferInstanceAs (Decidable (_ ∧ _))

instance (s : List Char) : Decidable (Separable s) :=
  haveI : Decidable (∀ c ∈ s, ¬ Wide c) := List.decidableBAll (¬ Wide ·) s
  decidable_of_iff ((∀ c ∈ s, ¬ Wide c) ∧ s.IsChain fun c d => ¬ Continues c d)
    ⟨fun h => ⟨h.1, h.2⟩, fun h => ⟨h.1, h.2⟩⟩

variable {s : List Char} {c d : Char} {n : Number}

theorem separable_nil : Separable [] :=
  ⟨nofun, .nil⟩

theorem separable_cons :
    Separable (c :: s) ↔ ¬ Wide c ∧ (∀ d ∈ s.head?, ¬ Continues c d) ∧ Separable s := by
  constructor
  · rintro ⟨hnarrow, hapart⟩
    obtain ⟨hhead, htail⟩ := List.isChain_cons.1 hapart
    exact ⟨hnarrow c List.mem_cons_self, hhead,
      fun b hb => hnarrow b (List.mem_cons_of_mem c hb), htail⟩
  · rintro ⟨hc, hhead, hnarrow, hapart⟩
    exact ⟨List.forall_mem_cons.2 ⟨hc, hnarrow⟩, List.isChain_cons.2 ⟨hhead, hapart⟩⟩

theorem continues_iff_of_open (h : open? c = some n) : Continues c d ↔ n.next? d ≠ none := by
  rcases open?_eq_some_iff.1 h with ⟨hzero, rfl⟩ | ⟨hhex, rfl⟩
  · have hno : ¬ InHex c := fun hc => hc.2.1 hzero
    simp [Continues, hzero, hno, Number.next?, Number.octal, Option.isSome_iff_ne_none]
  · simp [Continues, hhex.2.1, hhex, Number.next?, Number.hex, Option.isSome_iff_ne_none]

theorem not_continues_of_closed (h : open? c = none) : ¬ Continues c d := by
  obtain ⟨hzero, hhex⟩ := open?_eq_none_iff.1 h
  rintro (⟨hc, -⟩ | ⟨hc, -⟩)
  · exact hzero hc
  · exact hhex hc

theorem Wide.inHex (h : Wide c) : InHex c := by
  obtain ⟨hcontrol, hle⟩ := h
  refine ⟨hcontrol, by omega, ?_, ?_, ?_⟩
  all_goals
    rintro rfl
    exact absurd hle (by decide)

theorem escapeChar_spell (digit : HexDigit) : escapeChar digit.spell = [digit.spell] := by
  obtain ⟨value, capital⟩ := digit
  revert value capital
  decide

/-- Digits are not escaped. -/
theorem escapeChar_of_next? {k : Nat} (h : n.next? c = some k) : escapeChar c = [c] := by
  have hdigit : digit? n.base c = some k := by
    unfold Number.next? at h
    split at h
    next => cases h
    next => exact h
  obtain ⟨digit, rfl, -⟩ := hexValue?_eq_some_iff.1 (Option.filter_eq_some_iff.1 hdigit).1
  exact escapeChar_spell digit

theorem next?_backslash (n : Number) : n.next? '\\' = none := by
  have hvalue : hexValue? '\\' = none := by decide
  simp [Number.next?, digit?, hvalue]

theorem escapeChar_eq_or (c : Char) : escapeChar c = [c] ∨ ∃ t, escapeChar c = '\\' :: t := by
  unfold escapeChar
  split
  case h_6 =>
      split
      next => exact .inr ⟨_, rfl⟩
      next =>
          split
          next => exact .inr ⟨_, rfl⟩
          next => exact .inl rfl
  all_goals exact .inr ⟨_, rfl⟩

/-- An escaped text goes on with a number exactly if the text does. -/
theorem next?_head_escape (h : ∀ c ∈ s.head?, n.next? c = none) :
    ∀ c ∈ (s.flatMap escapeChar).head?, n.next? c = none := by
  cases s with
  | nil => exact nofun
  | cons c s =>
      intro d hd
      rw [List.flatMap_cons] at hd
      rcases escapeChar_eq_or c with hc | ⟨t, hc⟩
      · rw [hc] at hd
        exact h d hd
      · rw [hc] at hd
        obtain rfl : '\\' = d := Option.some.inj hd
        exact next?_backslash n

/-! ## The bytes of an escaped text -/

theorem byte?_of_open (h : open? c = some n) : n.byte? = some (UInt8.ofNat c.toNat) := by
  rcases open?_eq_some_iff.1 h with ⟨hzero, rfl⟩ | ⟨hhex, rfl⟩
  · rw [hzero]
    rfl
  · exact if_pos hhex.toNat_lt

theorem toNat_lt_of_open (h : open? c = some n) (hnarrow : ¬ Wide c) : c.toNat < 128 := by
  rcases open?_eq_some_iff.1 h with ⟨hzero, -⟩ | ⟨hhex, -⟩
  · omega
  · exact Nat.lt_of_not_le fun hle => hnarrow ⟨hhex.1, hle⟩

/-- The bytes of a separable text come back. -/
theorem run_escape (h : Separable s) : run .plain (s.flatMap escapeChar) = some (encode s) := by
  induction s with
  | nil => rfl
  | cons c s ih =>
      obtain ⟨hnarrow, hapart, hs⟩ := separable_cons.1 h
      rw [List.flatMap_cons, encode_cons]
      cases hopen : open? c with
      | none =>
          rw [run_escapeChar_append hopen, ih hs]
          rfl
      | some n =>
          have hend : ∀ d ∈ s.head?, n.next? d = none := fun d hd =>
            Classical.not_not.1 fun hne => hapart d hd ((continues_iff_of_open hopen).2 hne)
          rw [run_escapeChar_append_of_open hopen, run_number_end (next?_head_escape hend),
            byte?_of_open hopen, ih hs, utf8EncodeChar_ascii (toNat_lt_of_open hopen hnarrow)]
          rfl

theorem length_encode_cons (c : Char) (s : List Char) :
    (encode (c :: s)).length = c.utf8Size + (encode s).length := by
  rw [encode_cons, List.length_append, String.length_utf8EncodeChar]

/-- There are no more bytes than the text has, and as many only if it is separable. -/
def Bounded (s : List Char) (bs : List UInt8) : Prop :=
  bs.length ≤ (encode s).length ∧ (bs.length = (encode s).length → Separable s)

/-- Behind the byte of a number that an escape leaves open, bytes are bounded as well, and there are
fewer of them if the number takes in a digit. -/
def BoundedBehind (n : Number) (s : List Char) (bs : List UInt8) : Prop :=
  ∃ b r, bs = b :: r ∧ r.length ≤ (encode s).length ∧
    (r.length = (encode s).length → Separable s ∧ ∀ d ∈ s.head?, n.next? d = none)

theorem boundedBehind_of_end (hend : ∀ d ∈ s.head?, n.next? d = none)
    (hs : ∀ bs ∈ run .plain (s.flatMap escapeChar), Bounded s bs) :
    ∀ bs ∈ run (.number n) (s.flatMap escapeChar), BoundedBehind n s bs := by
  intro bs h
  rw [run_number_end (next?_head_escape hend)] at h
  obtain ⟨b, -, h⟩ := Option.bind_eq_some_iff.1 h
  obtain ⟨r, hr, rfl⟩ := Option.map_eq_some_iff.1 h
  obtain ⟨hle, heq⟩ := hs r hr
  exact ⟨b, r, rfl, hle, fun he => ⟨heq he, hend⟩⟩

theorem boundedBehind_of_digit {k : Nat} (hdigit : n.next? c = some k)
    (hs : ∀ bs ∈ run (.number (n.push k)) (s.flatMap escapeChar), BoundedBehind (n.push k) s bs) :
    ∀ bs ∈ run (.number n) ((c :: s).flatMap escapeChar), BoundedBehind n (c :: s) bs := by
  intro bs h
  rw [List.flatMap_cons, escapeChar_of_next? hdigit, List.singleton_append,
    run_number_digit hdigit] at h
  obtain ⟨b, r, rfl, hle, -⟩ := hs bs h
  have hpos : 0 < c.utf8Size := Char.utf8Size_pos c
  have hlength := length_encode_cons c s
  exact ⟨b, r, rfl, by omega, fun he => by omega⟩

theorem bounded_cons_of_open (hopen : open? c = some n)
    (hs : ∀ bs ∈ run (.number n) (s.flatMap escapeChar), BoundedBehind n s bs) :
    ∀ bs ∈ run .plain ((c :: s).flatMap escapeChar), Bounded (c :: s) bs := by
  intro bs h
  rw [List.flatMap_cons, run_escapeChar_append_of_open hopen] at h
  obtain ⟨b, r, rfl, hle, heq⟩ := hs bs h
  have hpos : 0 < c.utf8Size := Char.utf8Size_pos c
  rw [Bounded, length_encode_cons, List.length_cons]
  refine ⟨by omega, fun he => ?_⟩
  -- `c` itself gave one byte, so no byte is missing only if `c` has one and the rest lacks none
  obtain ⟨hs, hend⟩ := heq (by omega)
  have hone : c.utf8Size = 1 := by omega
  refine separable_cons.2 ⟨fun hwide => ?_, fun d hd hc => ?_, hs⟩
  · have hascii : c.toNat ≤ 127 := Char.utf8Size_eq_one_iff.1 hone
    have hle : 128 ≤ c.toNat := hwide.2
    omega
  · exact (continues_iff_of_open hopen).1 hc (hend d hd)

theorem bounded_cons_of_closed (hopen : open? c = none)
    (hs : ∀ bs ∈ run .plain (s.flatMap escapeChar), Bounded s bs) :
    ∀ bs ∈ run .plain ((c :: s).flatMap escapeChar), Bounded (c :: s) bs := by
  intro bs h
  rw [List.flatMap_cons, run_escapeChar_append hopen] at h
  obtain ⟨r, hr, rfl⟩ := Option.map_eq_some_iff.1 h
  obtain ⟨hle, heq⟩ := hs r hr
  rw [Bounded, length_encode_cons, List.length_append, String.length_utf8EncodeChar]
  refine ⟨by omega, fun he => ?_⟩
  exact separable_cons.2 ⟨fun hwide => (open?_eq_none_iff.1 hopen).2 hwide.inHex,
    fun d _ => not_continues_of_closed hopen, heq (by omega)⟩

/-- What an escaped text stands for has no more bytes than the text, with or without an open number
in front of it. -/
theorem bounded_of_run (s : List Char) :
    (∀ bs ∈ run .plain (s.flatMap escapeChar), Bounded s bs) ∧
      ∀ n, ∀ bs ∈ run (.number n) (s.flatMap escapeChar), BoundedBehind n s bs := by
  induction s with
  | nil =>
      have hplain : ∀ bs ∈ run .plain ([].flatMap escapeChar), Bounded [] bs := by
        intro bs h
        obtain rfl : [] = bs := Option.some.inj h
        exact ⟨Nat.le_refl 0, fun _ => separable_nil⟩
      exact ⟨hplain, fun n => boundedBehind_of_end nofun hplain⟩
  | cons c s ih =>
      have hplain : ∀ bs ∈ run .plain ((c :: s).flatMap escapeChar), Bounded (c :: s) bs := by
        cases hopen : open? c with
        | none => exact bounded_cons_of_closed hopen ih.1
        | some n => exact bounded_cons_of_open hopen (ih.2 n)
      refine ⟨hplain, fun n => ?_⟩
      cases hdigit : n.next? c with
      | none =>
          refine boundedBehind_of_end (fun d hd => ?_) hplain
          obtain rfl : c = d := Option.some.inj hd
          exact hdigit
      | some k =>
          -- the number goes on, so the induction is on every number that may be open
          exact boundedBehind_of_digit hdigit (ih.2 (n.push k))

/-- The contents of the literal stand for the bytes of the text exactly if the text has no control
character beyond ASCII, no octal digit behind NUL, and no hexadecimal digit behind a character that
is written in hexadecimal. -/
theorem read?_escape_eq_some_iff (s : String) :
    read? (escape s).toList = some s.toUTF8.toList ↔ Separable s.toList := by
  rw [escape, String.toList_ofList, toList_toUTF8]
  constructor
  · intro h
    exact ((bounded_of_run s.toList).1 _ h).2 rfl
  · exact run_escape

example : Separable "\x07go\x00\n1".toList := by decide

/-- The digit behind NUL is read as a digit of the escape. -/
theorem not_forall_read?_escape :
    ¬ ∀ s : String, read? (escape s).toList = some s.toUTF8.toList := by
  intro h
  have hdigit := h "\x001"
  rw [toList_toUTF8] at hdigit
  exact absurd hdigit (by decide)

end IrSurvey.CLiteral
