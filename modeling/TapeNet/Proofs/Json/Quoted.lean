import TapeNet.Json.Token

/-!
# Strings in a JSON text

A string stands between quotes.  Most characters stand for themselves, some are
written behind a backslash, and every code unit can be written with four
hexadecimal digits; a character beyond the first plane takes a pair of code
units then, and half a pair means nothing.  The machine that cuts a text takes
in such a string as one token, which has the value that its parts mean.
-/

namespace TapeNet

namespace Json

/-- What one letter behind a backslash stands for. -/
inductive Escape where
  | quote
  | backslash
  | slash
  | backspace
  | formFeed
  | lineFeed
  | carriageReturn
  | tab

namespace Escape

def letter : Escape → Char
  | quote => '"'
  | backslash => '\\'
  | slash => '/'
  | backspace => 'b'
  | formFeed => 'f'
  | lineFeed => 'n'
  | carriageReturn => 'r'
  | tab => 't'

def meant : Escape → Char
  | quote => '"'
  | backslash => '\\'
  | slash => '/'
  | backspace => '\x08'
  | formFeed => '\x0c'
  | lineFeed => '\n'
  | carriageReturn => '\r'
  | tab => '\t'

theorem escaped?_letter (escape : Escape) :
    PartialString.escaped? escape.letter = some escape.meant := by
  cases escape <;> decide

theorem letter_ne (escape : Escape) : escape.letter ≠ 'u' := by
  cases escape <;> decide

end Escape

/-- A hexadecimal digit in upper or lower case. -/
structure HexDigit where
  char : Char
  value : Nat
  reads : Numeral.hexDigit? char = some value

/-- A hexadecimal digit takes a single byte. -/
theorem HexDigit.utf8Size (digit : HexDigit) : digit.char.utf8Size = 1 := by
  have reads := digit.reads
  unfold Numeral.hexDigit? at reads
  rw [Char.utf8Size_eq_one_iff]
  have below {c bound : Char} (le : c ≤ bound) (small : bound.val ≤ 127) : c.val ≤ 127 :=
    UInt32.le_trans le small
  split at reads
  · next decimal => exact below decimal.2 (by decide)
  · split at reads
    · next lower => exact below lower.2 (by decide)
    · split at reads
      · next upper => exact below upper.2 (by decide)
      · cases reads

/-- Whether a character can stand for itself in a string. -/
def IsPlain (c : Char) : Prop :=
  c ≠ '"' ∧ c ≠ '\\' ∧ 0x20 ≤ c.toNat

instance (c : Char) : Decidable (IsPlain c) :=
  inferInstanceAs (Decidable (_ ∧ _ ∧ _))

/-- A part of a string as it is written. -/
inductive Piece where
  | plain (c : Char) (unescaped : IsPlain c)
  | escaped (escape : Escape)
  | unit (first second third fourth : HexDigit)

namespace Piece

def chars : Piece → List Char
  | plain c _ => [c]
  | escaped escape => ['\\', escape.letter]
  | unit first second third fourth =>
    ['\\', 'u', first.char, second.char, third.char, fourth.char]

/-- A part of a string means a character or a code unit. -/
def meaning : Piece → Char ⊕ Nat
  | plain c _ => .inl c
  | escaped escape => .inl escape.meant
  | unit first second third fourth =>
    .inr (Numeral.ofDigits 16 [first.value, second.value, third.value, fourth.value])

end Piece

def IsHigh (unit : Nat) : Prop :=
  0xD800 ≤ unit ∧ unit ≤ 0xDBFF

def IsLow (unit : Nat) : Prop :=
  0xDC00 ≤ unit ∧ unit ≤ 0xDFFF

instance (unit : Nat) : Decidable (IsHigh unit) :=
  inferInstanceAs (Decidable (_ ∧ _))

instance (unit : Nat) : Decidable (IsLow unit) :=
  inferInstanceAs (Decidable (_ ∧ _))

/-- The character beyond the first plane that a pair of code units stands for. -/
def paired (high low : Nat) : Char :=
  Char.ofNat (0x10000 + (high - 0xD800) * 0x400 + (low - 0xDC00))

/--
The characters that the parts of a string mean, if they mean anything; `half`
is the first half of a pair that was met just before.
-/
def decode : Option Nat → List (Char ⊕ Nat) → Option (List Char)
  | none, [] => some []
  | some _, [] => none
  | none, .inl c :: rest => (decode none rest).map (c :: ·)
  | some _, .inl _ :: _ => none
  | none, .inr unit :: rest =>
    if IsHigh unit then decode (some unit) rest
    else if IsLow unit then none
    else (decode none rest).map (Char.ofNat unit :: ·)
  | some high, .inr unit :: rest =>
    if IsLow unit then (decode none rest).map (paired high unit :: ·) else none

/-- A string as it is written between its quotes. -/
structure StringLiteral where
  pieces : List Piece

namespace StringLiteral

def body (literal : StringLiteral) : List Char :=
  literal.pieces.flatMap Piece.chars

def chars (literal : StringLiteral) : List Char :=
  '"' :: (literal.body ++ ['"'])

/-- What a string means. -/
def value (literal : StringLiteral) : Option String :=
  (decode none (literal.pieces.map Piece.meaning)).map String.ofList

/-- The string in which the characters of a text stand for themselves, as far as they can. -/
def ofPlain (text : String) : StringLiteral :=
  ⟨text.toList.filterMap fun c => if plain : IsPlain c then some (.plain c plain) else none⟩

end StringLiteral

namespace PartialString

variable {s : PartialString}

/-- A string after one of its parts. -/
def add (s : PartialString) (piece : Piece) : PartialString :=
  match piece.meaning with
  | .inl c => s.loseHalf.push c
  | .inr unit => s.pushUnit unit

theorem phase_pushUnit (s : PartialString) (unit : Nat) : (s.pushUnit unit).phase = .plain := by
  unfold pushUnit
  cases s.half with
  | some high =>
      simp only
      split <;> rfl
  | none =>
      simp only
      split
      · rfl
      · split <;> rfl

theorem phase_add (s : PartialString) (piece : Piece) : (s.add piece).phase = .plain := by
  cases piece with
  | plain | escaped => rfl
  | unit first second third fourth => exact phase_pushUnit s _

theorem tokens_more {next : PartialString} {c : Char} (goes : s.next c = .more next)
    (rest : List Char) :
    Scan.tokens (.string s) (c :: rest) = Scan.tokens (.string next) rest := by
  simp only [Scan.tokens, Scan.next, goes, List.nil_append]

theorem next_backslash (phase : s.phase = .plain) :
    s.next '\\' = .more { s with phase := .escape } := by
  simp [next, phase]

/-- Whether a first half of a pair is lost does not depend on the phase. -/
theorem push_loseHalf (s : PartialString) (phase : StringPhase) (c : Char) :
    ({ s with phase } : PartialString).loseHalf.push c = s.loseHalf.push c := by
  obtain ⟨_, _, half, _⟩ := s
  cases half with
  | none | some => rfl

theorem tokens_unit (s : PartialString) (first second third fourth : HexDigit)
    (rest : List Char) :
    Scan.tokens (.string { s with phase := .unit [] })
        (first.char :: second.char :: third.char :: fourth.char :: rest) =
      Scan.tokens (.string (s.add (.unit first second third fourth))) rest := by
  have once : PartialString.next { s with phase := .unit [] } first.char =
      .more { s with phase := .unit [first.char] } := by
    simp [next, first.utf8Size]
  have twice : PartialString.next { s with phase := .unit [first.char] } second.char =
      .more { s with phase := .unit [second.char, first.char] } := by
    simp [next, first.utf8Size, second.utf8Size]
  have thrice : PartialString.next { s with phase := .unit [second.char, first.char] } third.char =
      .more { s with phase := .unit [third.char, second.char, first.char] } := by
    simp [next, first.utf8Size, second.utf8Size, third.utf8Size]
  have last : PartialString.next { s with phase := .unit [third.char, second.char, first.char] }
      fourth.char = .more (s.add (.unit first second third fourth)) := by
    simp [next, first.utf8Size, second.utf8Size, third.utf8Size, fourth.utf8Size, first.reads,
      second.reads, third.reads, fourth.reads, add, Piece.meaning, pushUnit]
  rw [tokens_more once, tokens_more twice, tokens_more thrice, tokens_more last]

theorem tokens_piece (phase : s.phase = .plain) (piece : Piece) (rest : List Char) :
    Scan.tokens (.string s) (piece.chars ++ rest) = Scan.tokens (.string (s.add piece)) rest := by
  cases piece with
  | plain c unescaped =>
      obtain ⟨quote, backslash, printable⟩ := unescaped
      have goes : s.next c = .more (s.loseHalf.push c) := by
        simp [next, phase, quote, backslash, Nat.not_lt_of_le printable]
      exact tokens_more goes rest
  | escaped escape =>
      have goes : PartialString.next { s with phase := .escape } escape.letter =
          .more (s.loseHalf.push escape.meant) := by
        simp [next, escape.letter_ne, escape.escaped?_letter, push_loseHalf]
      rw [Piece.chars, List.cons_append, List.singleton_append,
        tokens_more (next_backslash phase), tokens_more goes]
      rfl
  | unit first second third fourth =>
      have goes : PartialString.next { s with phase := .escape } 'u' =
          .more { s with phase := .unit [] } := by
        simp [next]
      rw [Piece.chars]
      simp only [List.cons_append, List.nil_append]
      rw [tokens_more (next_backslash phase), tokens_more goes, tokens_unit]

theorem tokens_body (phase : s.phase = .plain) (pieces : List Piece) (rest : List Char) :
    Scan.tokens (.string s) (pieces.flatMap Piece.chars ++ '"' :: rest) =
      .string (pieces.foldl add s).loseHalf.worth :: Scan.between.tokens rest := by
  induction pieces generalizing s with
  | nil => simp [Scan.tokens, Scan.next, next, phase]
  | cons piece pieces ih =>
      rw [List.flatMap_cons, List.append_assoc, tokens_piece phase, ih (phase_add s piece),
        List.foldl_cons]

/-- What has been taken in and what still comes make up what a string is worth. -/
theorem worth_foldl_add (s : PartialString) (pieces : List Piece) :
    (pieces.foldl add s).loseHalf.worth =
      if s.meaningless then none
      else (decode s.half (pieces.map Piece.meaning)).map
        fun chars => String.ofList (s.chars.reverse ++ chars) := by
  induction pieces generalizing s with
  | nil =>
      cases half : s.half with
      | none => simp [loseHalf, half, worth, decode]
      | some high => simp [loseHalf, half, worth, decode, spoil]
  | cons piece pieces ih =>
      rw [List.foldl_cons, ih, List.map_cons, add]
      obtain ⟨phase, taken, half, meaningless⟩ := s
      cases piece.meaning with
      | inl c =>
          cases half with
          | none => simp [loseHalf, push, decode, Function.comp_def, -String.ofList_append]
          | some high => simp [loseHalf, spoil, push, decode]
      | inr unit =>
          cases half with
          | none =>
              by_cases high : IsHigh unit
              · simp [pushUnit, decode, high, high.1, high.2]
              · by_cases low : IsLow unit
                · simp only [IsHigh, IsLow] at high low
                  simp [pushUnit, decode, IsHigh, IsLow, high, low, spoil]
                · simp only [IsHigh, IsLow] at high low
                  simp [pushUnit, decode, IsHigh, IsLow, high, low, push, Function.comp_def,
                    -String.ofList_append]
          | some high =>
              by_cases low : IsLow unit
              · simp [pushUnit, decode, low, low.1, low.2, push, paired, Function.comp_def,
                  -String.ofList_append]
              · simp only [IsLow] at low
                simp [pushUnit, decode, IsLow, low, spoil]

end PartialString

namespace StringLiteral

/-- A string is taken in as one token with the value that it means. -/
theorem tokens_chars (literal : StringLiteral) (rest : List Char) :
    Scan.between.tokens (literal.chars ++ rest) =
      .string literal.value :: Scan.between.tokens rest := by
  have begins : Scan.between.next '"' = ([], .string {}) := rfl
  rw [chars, body, List.cons_append, List.append_assoc, List.singleton_append, Scan.tokens, begins]
  simp only [List.nil_append]
  rw [PartialString.tokens_body rfl, PartialString.worth_foldl_add]
  simp [value]

/-- Plain characters are written as they are and mean themselves. -/
theorem body_filterMap {chars : List Char} (plain : ∀ c ∈ chars, IsPlain c) :
    let pieces := chars.filterMap fun c =>
      if plain : IsPlain c then some (Piece.plain c plain) else none
    pieces.flatMap Piece.chars = chars ∧ decode none (pieces.map Piece.meaning) = some chars := by
  induction chars with
  | nil => exact ⟨rfl, rfl⟩
  | cons c chars ih =>
      obtain ⟨written, meant⟩ := ih fun other member => plain other (List.mem_cons_of_mem _ member)
      have first : IsPlain c := plain c List.mem_cons_self
      simp [first, written, meant, Piece.chars, Piece.meaning, decode]

theorem ofPlain_chars {text : String} (plain : ∀ c ∈ text.toList, IsPlain c) :
    (ofPlain text).chars = '"' :: (text.toList ++ ['"']) := by
  rw [chars, body, ofPlain, (body_filterMap plain).1]

theorem ofPlain_value {text : String} (plain : ∀ c ∈ text.toList, IsPlain c) :
    (ofPlain text).value = some text := by
  rw [value, ofPlain, (body_filterMap plain).2, Option.map_some, String.ofList_toList]

end StringLiteral

end Json

end TapeNet
