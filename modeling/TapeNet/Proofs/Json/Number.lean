import TapeNet.Json.Token

/-!
# Numbers in a JSON text

A number is written as a whole part without superfluous zeros, perhaps with a
sign before it and a fraction and an exponent behind it.  The machine that cuts
a text takes in such a number as one token, whatever stands behind it, unless
that would go on with the number.
-/

namespace TapeNet

namespace Json

def digitChar (digit : Fin 10) : Char :=
  Nat.digitChar digit.val

theorem digit?_digitChar (digit : Fin 10) : Numeral.digit? (digitChar digit) = some digit.val := by
  revert digit
  decide

/-- The digits of a number, at least one, the most significant first. -/
structure Digits where
  first : Fin 10
  rest : List (Fin 10) := []

namespace Digits

def all (digits : Digits) : List (Fin 10) :=
  digits.first :: digits.rest

def chars (digits : Digits) : List Char :=
  digits.all.map digitChar

def value (digits : Digits) : Nat :=
  Numeral.ofDigits 10 (digits.all.map Fin.val)

/-- The digits that write a number. -/
def ofNat (n : Nat) : Digits :=
  if small : n < 10 then
    { first := ⟨n, small⟩ }
  else
    let front := ofNat (n / 10)
    { front with rest := front.rest ++ [⟨n % 10, Nat.mod_lt n (by decide)⟩] }

theorem chars_ofNat (n : Nat) : (ofNat n).chars = Nat.toDigits 10 n := by
  induction n using ofNat.induct with
  | case1 n small => rw [ofNat, dif_pos small, Nat.toDigits_of_lt_base small, chars, all]; rfl
  | case2 n large ih =>
      rw [ofNat, dif_neg large, Nat.toDigits_of_base_le (by decide) (Nat.le_of_not_lt large), ← ih]
      simp [chars, all, digitChar]

theorem value_ofNat (n : Nat) : (ofNat n).value = n := by
  induction n using ofNat.induct with
  | case1 n small => rw [ofNat, dif_pos small]; simp [value, all, Numeral.ofDigits]
  | case2 n large ih =>
      have front : Numeral.ofDigits 10 ((ofNat (n / 10)).all.map Fin.val) = n / 10 := ih
      rw [ofNat, dif_neg large]
      simp only [all, value, Numeral.ofDigits, List.map_cons, List.map_append, List.map_nil,
        List.foldl_cons, List.foldl_append, List.foldl_nil] at front ⊢
      rw [front]
      omega

/-- Only zero is written with a zero in front, and then there is nothing behind it. -/
theorem rest_ofNat {n : Nat} (zero : (ofNat n).first = 0) : (ofNat n).rest = [] := by
  have positive : ∀ n, 10 ≤ n → (ofNat n).first ≠ 0 := by
    intro n
    induction n using ofNat.induct with
    | case1 n small => intro large; omega
    | case2 n large ih =>
        intro _
        rw [ofNat, dif_neg large]
        by_cases more : 10 ≤ n / 10
        · exact ih more
        · have one : n / 10 < 10 := Nat.lt_of_not_le more
          change (ofNat (n / 10)).first ≠ 0
          rw [ofNat, dif_pos one]
          intro nothing
          have vanishes : n / 10 = 0 := congrArg Fin.val nothing
          omega
  by_cases large : 10 ≤ n
  · exact absurd zero (positive n large)
  · rw [ofNat, dif_pos (Nat.lt_of_not_le large)]

end Digits

/-- The exponent of a number. -/
structure Exponent where
  mark : Char
  mark_eq : mark = 'e' ∨ mark = 'E'
  /-- Whether there is a sign, and whether it is a minus. -/
  sign : Option Bool := none
  digits : Digits

def Exponent.signChars (exponent : Exponent) : List Char :=
  match exponent.sign with
  | none => []
  | some true => ['-']
  | some false => ['+']

/-- A number as it is written. -/
structure NumberLiteral where
  negative : Bool := false
  whole : Digits
  /-- A zero stands in front of no other digits. -/
  plain : whole.first = 0 → whole.rest = []
  fraction : Option Digits := none
  exponent : Option Exponent := none

namespace NumberLiteral

def signChars (number : NumberLiteral) : List Char :=
  if number.negative then ['-'] else []

def fractionChars (number : NumberLiteral) : List Char :=
  match number.fraction with
  | none => []
  | some digits => '.' :: digits.chars

def exponentChars (number : NumberLiteral) : List Char :=
  match number.exponent with
  | none => []
  | some exponent => exponent.mark :: (exponent.signChars ++ exponent.digits.chars)

def chars (number : NumberLiteral) : List Char :=
  number.signChars ++ number.whole.chars ++ number.fractionChars ++ number.exponentChars

/-- The number without sign, fraction and exponent. -/
def ofNat (n : Nat) : NumberLiteral :=
  { whole := .ofNat n, plain := Digits.rest_ofNat }

end NumberLiteral

/-- Whether a character goes on with a number that might also end before it. -/
def continuesNumber (c : Char) : Bool :=
  (Numeral.digit? c).isSome || c = '.' || c = 'e' || c = 'E'

/-- What can stand behind a number. -/
def EndsNumber (rest : List Char) : Prop :=
  ∀ c ∈ rest.head?, continuesNumber c = false

namespace PartialNumber

variable (n : PartialNumber)

/-- A number after further digits of its whole part. -/
def addWhole (digits : List (Fin 10)) : PartialNumber :=
  { n with digits := digits.foldl (fun value digit => value * 10 + digit.val) n.digits }

/-- A number after further digits of its fraction. -/
def addPlaces (digits : List (Fin 10)) : PartialNumber :=
  { n.addWhole digits with places := n.places + digits.length }

/-- A number after further digits of its exponent. -/
def addExponent (digits : List (Fin 10)) : PartialNumber :=
  { n with exponent := digits.foldl (fun value digit => value * 10 + digit.val) n.exponent }

theorem tokens_more {n next : PartialNumber} {c : Char} (goes : n.next c = .more next)
    (rest : List Char) :
    Scan.tokens (.number n) (c :: rest) = Scan.tokens (.number next) rest := by
  simp only [Scan.tokens, Scan.next, goes, List.nil_append]

theorem tokens_whole {n : PartialNumber} (phase : n.phase = .whole) (digits : List (Fin 10))
    (rest : List Char) :
    Scan.tokens (.number n) (digits.map digitChar ++ rest) =
      Scan.tokens (.number (n.addWhole digits)) rest := by
  induction digits generalizing n with
  | nil => rfl
  | cons digit digits ih =>
      have goes : n.next (digitChar digit) = .more (n.withDigit .whole digit.val) := by
        simp only [next, phase, digit?_digitChar]
      rw [List.map_cons, List.cons_append, tokens_more goes, ih rfl]
      simp only [addWhole, withDigit, phase, List.foldl_cons]

theorem tokens_fraction {n : PartialNumber} (phase : n.phase = .fraction)
    (digits : List (Fin 10)) (rest : List Char) :
    Scan.tokens (.number n) (digits.map digitChar ++ rest) =
      Scan.tokens (.number (n.addPlaces digits)) rest := by
  induction digits generalizing n with
  | nil => rfl
  | cons digit digits ih =>
      have goes : n.next (digitChar digit) = .more (n.withPlace digit.val) := by
        simp only [next, phase, digit?_digitChar]
      rw [List.map_cons, List.cons_append, tokens_more goes, ih rfl]
      simp only [addPlaces, addWhole, withPlace, withDigit, phase, List.foldl_cons,
        List.length_cons, Nat.add_assoc, Nat.add_comm 1]

theorem tokens_exponent {n : PartialNumber} (phase : n.phase = .exponent)
    (digits : List (Fin 10)) (rest : List Char) :
    Scan.tokens (.number n) (digits.map digitChar ++ rest) =
      Scan.tokens (.number (n.addExponent digits)) rest := by
  induction digits generalizing n with
  | nil => rfl
  | cons digit digits ih =>
      have goes : n.next (digitChar digit) = .more (n.withExponent digit.val) := by
        simp only [next, phase, digit?_digitChar]
      rw [List.map_cons, List.cons_append, tokens_more goes, ih rfl]
      simp only [addExponent, withExponent, phase, List.foldl_cons]

theorem next_point {n : PartialNumber} (phase : n.phase = .zero ∨ n.phase = .whole) :
    n.next '.' = .more { n with phase := .point } := by
  rcases phase with phase | phase <;>
    simp [next, phase, afterDigits, (by decide : Numeral.digit? '.' = none)]

theorem next_place {n : PartialNumber} (phase : n.phase = .point) (digit : Fin 10) :
    n.next (digitChar digit) = .more (n.withPlace digit.val) := by
  simp only [next, phase, digit?_digitChar]

theorem next_mark {n : PartialNumber}
    (phase : n.phase = .zero ∨ n.phase = .whole ∨ n.phase = .fraction) {c : Char}
    (mark : c = 'e' ∨ c = 'E') : n.next c = .more { n with phase := .mark } := by
  have other : Numeral.digit? c = none ∧ c ≠ '.' := by
    rcases mark with rfl | rfl <;> decide
  rcases phase with phase | phase | phase <;>
    simp [next, phase, afterDigits, other.1, other.2, mark]

theorem next_plus {n : PartialNumber} (phase : n.phase = .mark) :
    n.next '+' = .more { n with phase := .markSign } := by
  simp [next, phase, (by decide : Numeral.digit? '+' = none)]

theorem next_minus {n : PartialNumber} (phase : n.phase = .mark) :
    n.next '-' = .more { n with phase := .markSign, exponentNegative := true } := by
  simp [next, phase, (by decide : Numeral.digit? '-' = none)]

theorem tokens_exponentDigits {n : PartialNumber} (phase : n.phase = .mark ∨ n.phase = .markSign)
    (fresh : n.exponent = 0) (digits : Digits) (rest : List Char) :
    Scan.tokens (.number n) (digits.chars ++ rest) =
      Scan.tokens (.number { n with phase := .exponent, exponent := digits.value }) rest := by
  have goes : n.next (digitChar digits.first) = .more (n.withExponent digits.first.val) := by
    rcases phase with phase | phase <;> simp only [next, phase, digit?_digitChar]
  rw [Digits.chars, Digits.all, List.map_cons, List.cons_append, tokens_more goes,
    tokens_exponent rfl]
  simp [addExponent, withExponent, fresh, Digits.value, Digits.all, Numeral.ofDigits,
    List.foldl_map]

/-- A number that may end does so before anything that does not go on with it. -/
theorem tokens_ends {n : PartialNumber} (whole : n.mayEnd = true) {rest : List Char}
    (ends : EndsNumber rest) :
    Scan.tokens (.number n) rest = .number n.worth :: Scan.between.tokens rest := by
  cases rest with
  | nil => simp only [Scan.tokens, Scan.finish, whole, if_true]
  | cons c rest =>
      have other : continuesNumber c = false := ends c rfl
      simp only [continuesNumber, Bool.or_eq_false_iff, Option.isSome_eq_false_iff,
        Option.isNone_iff_eq_none, decide_eq_false_iff_not] at other
      obtain ⟨⟨⟨digit, point⟩, small⟩, capital⟩ := other
      have stops : n.next c = .ends := by
        unfold mayEnd at whole
        unfold next
        cases phase : n.phase with
        | zero | whole | fraction | exponent =>
            simp [digit, afterDigits, point, small, capital]
        | sign | point | mark | markSign => rw [phase] at whole; cases whole
      simp only [Scan.tokens, Scan.next, stops, List.cons_append]

theorem worth_eq_natural_iff (n : PartialNumber) (value : Nat) :
    n.worth = .natural value ↔
      (n.phase = .zero ∨ n.phase = .whole) ∧ n.negative = false ∧ n.digits < naturalLimit ∧
        n.digits = value := by
  unfold worth
  simp only
  split
  · next natural => simp [natural]
  · next other =>
      have apart (far : Bool) : (if far then Number.excessive else .other) ≠ .natural value := by
        cases far <;> simp
      exact iff_of_false (apart _) fun natural => other ⟨natural.1, natural.2.1, natural.2.2.1⟩

end PartialNumber

namespace NumberLiteral

/-- What the machine knows of a number behind its whole part. -/
def afterWhole (number : NumberLiteral) : PartialNumber :=
  { phase := if number.whole.first = 0 then .zero else .whole
    negative := number.negative
    digits := number.whole.value }

/-- What the machine knows of a number behind its fraction. -/
def afterFraction (number : NumberLiteral) : PartialNumber :=
  match number.fraction with
  | none => number.afterWhole
  | some digits => { number.afterWhole with phase := .fraction }.addPlaces digits.all

/-- What the machine knows of a number behind its last character. -/
def afterAll (number : NumberLiteral) : PartialNumber :=
  match number.exponent with
  | none => number.afterFraction
  | some exponent =>
    { number.afterFraction with
        phase := .exponent
        exponentNegative := exponent.sign = some true
        exponent := exponent.digits.value }

/-- What a number is worth to a reader. -/
def worth (number : NumberLiteral) : Number :=
  number.afterAll.worth

/-- The first digit settles whether more digits can follow. -/
theorem tokens_firstDigit (negative : Bool) (digit : Fin 10) (rest : List Char) :
    Scan.between.tokens ((if negative then ['-'] else []) ++ digitChar digit :: rest) =
      Scan.tokens
        (.number { phase := if digit = 0 then .zero else .whole, negative, digits := digit.val })
        rest := by
  cases negative with
  | false =>
      have begins : Scan.begin (digitChar digit) =
          ([], .number { phase := if digit = 0 then .zero else .whole, digits := digit.val }) := by
        revert digit
        decide
      simp only [Bool.false_eq_true, if_false, List.nil_append, Scan.tokens, Scan.next, begins]
  | true =>
      have goes : PartialNumber.next { phase := .sign, negative := true } (digitChar digit) =
          .more { phase := if digit = 0 then .zero else .whole, negative := true,
                  digits := digit.val } := by
        rw [PartialNumber.next, digit?_digitChar]
        by_cases zero : digit = 0
        · rw [zero]
          rfl
        · have positive : digit.val ≠ 0 := fun nothing => zero (Fin.ext nothing)
          obtain ⟨value, succ⟩ := Nat.exists_eq_succ_of_ne_zero positive
          simp [succ, zero, PartialNumber.withDigit]
      exact PartialNumber.tokens_more goes rest

theorem tokens_wholePart (number : NumberLiteral) (rest : List Char) :
    Scan.between.tokens (number.signChars ++ number.whole.chars ++ rest) =
      Scan.tokens (.number number.afterWhole) rest := by
  rw [signChars, Digits.chars, Digits.all, List.map_cons, List.append_assoc, List.cons_append,
    tokens_firstDigit]
  by_cases zero : number.whole.first = 0
  · simp [afterWhole, Digits.value, Digits.all, Numeral.ofDigits, zero, number.plain zero]
  · rw [PartialNumber.tokens_whole (by simp [zero])]
    simp [afterWhole, PartialNumber.addWhole, Digits.value, Digits.all, Numeral.ofDigits, zero,
      List.foldl_map]

theorem tokens_fractionPart (number : NumberLiteral) (rest : List Char) :
    Scan.tokens (.number number.afterWhole) (number.fractionChars ++ rest) =
      Scan.tokens (.number number.afterFraction) rest := by
  unfold fractionChars afterFraction
  cases number.fraction with
  | none => rfl
  | some digits =>
      have point : number.afterWhole.next '.' =
          .more { number.afterWhole with phase := .point } :=
        PartialNumber.next_point
          (by by_cases zero : number.whole.first = 0 <;> simp [afterWhole, zero])
      rw [List.cons_append, PartialNumber.tokens_more point, Digits.chars, Digits.all,
        List.map_cons, List.cons_append,
        PartialNumber.tokens_more (PartialNumber.next_place rfl digits.first),
        PartialNumber.tokens_fraction rfl]
      simp only [PartialNumber.addPlaces, PartialNumber.addWhole, PartialNumber.withPlace,
        PartialNumber.withDigit, Digits.all, List.foldl_cons, List.length_cons, Nat.add_assoc,
        Nat.add_comm 1]

/-- Neither a point nor a digit has to follow a fraction. -/
theorem phase_afterFraction (number : NumberLiteral) :
    number.afterFraction.phase = .zero ∨ number.afterFraction.phase = .whole ∨
      number.afterFraction.phase = .fraction := by
  unfold afterFraction
  cases number.fraction with
  | none => by_cases zero : number.whole.first = 0 <;> simp [afterWhole, zero]
  | some digits => exact .inr (.inr rfl)

theorem exponent_afterFraction (number : NumberLiteral) :
    number.afterFraction.exponent = 0 ∧ number.afterFraction.exponentNegative = false := by
  unfold afterFraction
  cases number.fraction with
  | none | some => exact ⟨rfl, rfl⟩

theorem tokens_exponentPart (number : NumberLiteral) (rest : List Char) :
    Scan.tokens (.number number.afterFraction) (number.exponentChars ++ rest) =
      Scan.tokens (.number number.afterAll) rest := by
  unfold exponentChars afterAll
  cases number.exponent with
  | none => rfl
  | some exponent =>
      have mark := PartialNumber.next_mark number.phase_afterFraction exponent.mark_eq
      obtain ⟨fresh, positive⟩ := number.exponent_afterFraction
      rw [List.cons_append, PartialNumber.tokens_more mark, List.append_assoc, Exponent.signChars]
      cases sign : exponent.sign with
      | none =>
          rw [List.nil_append, PartialNumber.tokens_exponentDigits (.inl rfl) (by exact fresh)]
          simp [positive, sign]
      | some negative =>
          cases negative with
          | false =>
              rw [List.singleton_append, PartialNumber.tokens_more (PartialNumber.next_plus rfl),
                PartialNumber.tokens_exponentDigits (.inr rfl) (by exact fresh)]
              simp [positive, sign]
          | true =>
              rw [List.singleton_append, PartialNumber.tokens_more (PartialNumber.next_minus rfl),
                PartialNumber.tokens_exponentDigits (.inr rfl) (by exact fresh)]
              simp [sign]

theorem mayEnd_afterAll (number : NumberLiteral) : number.afterAll.mayEnd = true := by
  unfold afterAll PartialNumber.mayEnd
  cases number.exponent with
  | none => rcases number.phase_afterFraction with phase | phase | phase <;> simp [phase]
  | some exponent => rfl

/-- A number is taken in as one token, unless what stands behind it goes on with it. -/
theorem tokens_chars (number : NumberLiteral) {rest : List Char} (ends : EndsNumber rest) :
    Scan.between.tokens (number.chars ++ rest) =
      .number number.worth :: Scan.between.tokens rest := by
  rw [chars, List.append_assoc, List.append_assoc, tokens_wholePart, tokens_fractionPart,
    tokens_exponentPart, PartialNumber.tokens_ends number.mayEnd_afterAll ends, worth]

/-- Whether a number has neither a sign nor a fraction nor an exponent. -/
def IsWhole (number : NumberLiteral) : Prop :=
  number.negative = false ∧ number.fraction = none ∧ number.exponent = none

theorem phase_afterAll_iff (number : NumberLiteral) :
    (number.afterAll.phase = .zero ∨ number.afterAll.phase = .whole) ↔
      number.fraction = none ∧ number.exponent = none := by
  unfold afterAll afterFraction
  cases number.exponent with
  | none =>
      cases number.fraction with
      | none => by_cases zero : number.whole.first = 0 <;> simp [afterWhole, zero]
      | some digits => simp [PartialNumber.addPlaces, PartialNumber.addWhole]
  | some exponent => simp

theorem negative_afterAll (number : NumberLiteral) :
    number.afterAll.negative = number.negative := by
  unfold afterAll afterFraction
  cases number.exponent with
  | none | some =>
      cases number.fraction with
      | none | some => rfl

theorem digits_afterAll {number : NumberLiteral} (whole : number.IsWhole) :
    number.afterAll.digits = number.whole.value := by
  unfold afterAll afterFraction
  rw [whole.2.1, whole.2.2]
  rfl

/-- A reader gets a whole number from one that is written as such and is not too large. -/
theorem worth_eq_natural_iff (number : NumberLiteral) (value : Nat) :
    number.worth = .natural value ↔
      number.IsWhole ∧ number.whole.value = value ∧ value < PartialNumber.naturalLimit := by
  rw [worth, PartialNumber.worth_eq_natural_iff, phase_afterAll_iff, negative_afterAll]
  constructor
  · rintro ⟨⟨fraction, exponent⟩, positive, small, same⟩
    have whole : number.IsWhole := ⟨positive, fraction, exponent⟩
    rw [digits_afterAll whole] at small same
    exact ⟨whole, same, same ▸ small⟩
  · rintro ⟨whole, same, small⟩
    rw [digits_afterAll whole]
    exact ⟨whole.2, whole.1, same ▸ small, same⟩

theorem chars_ofNat (n : Nat) : (ofNat n).chars = Nat.toDigits 10 n := by
  simp [chars, signChars, fractionChars, exponentChars, ofNat, Digits.chars_ofNat]

end NumberLiteral

end Json

end TapeNet
