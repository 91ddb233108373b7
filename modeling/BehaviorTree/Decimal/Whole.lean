/-!
# Whole numbers in text

Reading whole numbers in a base, with an optional sign, and the ranges of fixed widths.
Reading undoes writing: `natural?_to_digits`.
-/

namespace BehaviorTree.Decimal

/-- The value of a digit in bases up to thirty-six. -/
def digitValue? (c : Char) : Option Nat :=
  if '0' ≤ c ∧ c ≤ '9' then some (c.toNat - 48)
  else if 'a' ≤ c ∧ c ≤ 'z' then some (c.toNat - 87)
  else if 'A' ≤ c ∧ c ≤ 'Z' then some (c.toNat - 55)
  else none

/-- Whether a character is a decimal digit. -/
def isDigit (c : Char) : Bool := '0' ≤ c && c ≤ '9'

/-- Reads digits onto a number that was read before them. -/
def digitsOnto? (base : Nat) : Nat → List Char → Option Nat
  | value, [] => some value
  | value, c :: rest =>
      match digitValue? c with
      | none => none
      | some digit => if digit < base then digitsOnto? base (value * base + digit) rest else none

/-- Reads one or more digits. -/
def natural? (base : Nat) : List Char → Option Nat
  | [] => none
  | cs => digitsOnto? base 0 cs

/-- Digits are read on from the number that those in front of them make. -/
theorem digits_onto?_append (base value : Nat) (front back : List Char) :
    digitsOnto? base value (front ++ back) =
      (digitsOnto? base value front).bind fun value => digitsOnto? base value back := by
  induction front generalizing value with
  | nil => rfl
  | cons c rest ih =>
      simp only [List.cons_append, digitsOnto?]
      split
      · rfl
      · split
        · exact ih _
        · rfl

/-- The digits below ten are written as the characters that have their value. -/
theorem digit_value?_digit_char :
    ∀ digit, digit < 10 → digitValue? digit.digitChar = some digit := by decide

/-- The decimal digits of a number, read from zero, make the number again. -/
theorem digits_onto?_to_digits (n : Nat) : digitsOnto? 10 0 (Nat.toDigits 10 n) = some n := by
  induction n using Nat.strongRecOn with
  | ind n ih =>
      by_cases hsmall : n < 10
      · rw [Nat.toDigits_of_lt_base hsmall]
        simp [digitsOnto?, digit_value?_digit_char n hsmall, hsmall]
      · have hdigit : n % 10 < 10 := by omega
        rw [Nat.toDigits_of_base_le (by decide) (by omega), digits_onto?_append,
          ih (n / 10) (by omega)]
        simp only [Option.bind_some, digitsOnto?, digit_value?_digit_char _ hdigit, hdigit,
          ↓reduceIte]
        rw [Nat.div_add_mod' n 10]

/-- Reading a number undoes writing it. -/
theorem natural?_to_digits (n : Nat) : natural? 10 (Nat.toDigits 10 n) = some n := by
  have hread := digits_onto?_to_digits n
  cases hdigits : Nat.toDigits 10 n with
  | nil => exact absurd hdigits Nat.toDigits_ne_nil
  | cons c rest =>
      rw [hdigits] at hread
      exact hread

/-- A number that is not zero is written without a zero in front. -/
theorem head?_to_digits_ne_zero {n : Nat} (h : 0 < n) :
    (Nat.toDigits 10 n).head? ≠ some '0' := by
  have hdigit : ∀ digit, digit < 10 → 0 < digit → digit.digitChar ≠ '0' := by decide
  induction n using Nat.strongRecOn with
  | ind n ih =>
      by_cases hsmall : n < 10
      · rw [Nat.toDigits_of_lt_base hsmall]
        exact fun heq => hdigit n hsmall h (Option.some.inj heq)
      · rw [Nat.toDigits_of_base_le (by decide) (by omega), List.head?_append]
        have hfront := ih (n / 10) (by omega) (by omega)
        cases hdigits : Nat.toDigits 10 (n / 10) with
        | nil => exact absurd hdigits Nat.toDigits_ne_nil
        | cons c rest =>
            rw [hdigits] at hfront
            exact hfront

/-- A number is written in decimal with decimal digits alone. -/
theorem is_digit_of_mem_to_digits {n : Nat} {c : Char} (h : c ∈ Nat.toDigits 10 n) :
    isDigit c = true := by
  have hdigit := Nat.isDigit_of_mem_toDigits (by decide) (by decide) h
  simpa [isDigit, Char.isDigit, Char.le_def] using hdigit

/-- Reads one or more digits after an optional plus sign. -/
def unsigned? (base : Nat) : List Char → Option Nat
  | '+' :: rest => natural? base rest
  | cs => natural? base cs

/-- Reads one or more digits after an optional sign. -/
def signed? (base : Nat) : List Char → Option Int
  | '-' :: rest => (natural? base rest).map fun value => -(value : Int)
  | cs => (unsigned? base cs).map fun value => (value : Int)

/-- A kind of whole numbers of fixed width. -/
structure Width where
  isSigned : Bool
  bits : Nat
  deriving DecidableEq, Repr

namespace Width

/-- Sixty-four bits without a sign. -/
def natural64 : Width := ⟨false, 64⟩

/-- Sixty-four bits with a sign. -/
def integer64 : Width := ⟨true, 64⟩

/-- A hundred and twenty-eight bits without a sign. -/
def natural128 : Width := ⟨false, 128⟩

/-- A hundred and twenty-eight bits with a sign. -/
def integer128 : Width := ⟨true, 128⟩

/-- The least number of a width. -/
def least (width : Width) : Int := if width.isSigned then -(Nat.pow 2 (width.bits - 1) : Nat) else 0

/-- The greatest number of a width. -/
def greatest (width : Width) : Int :=
  if width.isSigned then (Nat.pow 2 (width.bits - 1) : Nat) - 1
  else (Nat.pow 2 width.bits : Nat) - 1

/-- Whether a number is within a width. -/
def holds (width : Width) (value : Int) : Bool := width.least ≤ value && value ≤ width.greatest

/-- Reads a number of a width. A minus sign is taken only where negative numbers exist. -/
def read? (width : Width) (base : Nat) (cs : List Char) : Option Int :=
  (if width.isSigned then signed? base cs
    else (unsigned? base cs).map fun value => (value : Int)).filter width.holds

end Width

end BehaviorTree.Decimal
