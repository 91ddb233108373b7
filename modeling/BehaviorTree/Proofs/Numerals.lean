import BehaviorTree.Arguments

/-!
# Whole numbers as they are spelled

`Decimal.Spells` is the grammar of whole numbers in text: an optional sign and one or more decimal
digits, of any length. Reading a text takes just these spellings (`Decimal.signed?_eq_some`), and
reading a number of a width those of them whose numbers are within the width
(`Decimal.Width.read?_eq_some`). What is written in decimal is such a spelling, so it is read back
in every width that holds the number and in no other (`Decimal.Width.read?_to_string`).
-/

namespace BehaviorTree

namespace Decimal

/-! ## Digits -/

/-- One or more decimal digits. -/
def AreDigits (cs : List Char) : Prop := cs ≠ [] ∧ ∀ c ∈ cs, isDigit c = true

/-- The decimal digits are those from `0` to `9`. -/
theorem is_digit_iff {c : Char} : isDigit c = true ↔ 48 ≤ c.toNat ∧ c.toNat ≤ 57 := by
  simp only [isDigit, Bool.and_eq_true, decide_eq_true_eq, Char.le_def, UInt32.le_iff_toNat_le]
  rfl

/-- Of the characters that stand for digits in some base, those below ten are the decimal ones. -/
theorem digit_value?_of_is_digit {c : Char} (h : isDigit c = true) :
    digitValue? c = some (c.toNat - 48) ∧ c.toNat - 48 < 10 := by
  have hrange := is_digit_iff.1 h
  rw [isDigit, Bool.and_eq_true, decide_eq_true_eq, decide_eq_true_eq] at h
  exact ⟨if_pos h, by omega⟩

/-- A digit below ten is a decimal digit. -/
theorem is_digit_of_digit_value? {c : Char} {digit : Nat} (h : digitValue? c = some digit)
    (hsmall : digit < 10) : isDigit c = true := by
  unfold digitValue? at h
  simp only [Char.le_def, UInt32.le_iff_toNat_le] at h
  split at h
  · rename_i hdigit
    exact is_digit_iff.2 hdigit
  · split at h
    · rename_i hlower
      have hlow : 97 ≤ c.toNat := hlower.1
      have hvalue := Option.some.inj h
      omega
    · split at h
      · rename_i hupper
        have hlow : 65 ≤ c.toNat := hupper.1
        have hvalue := Option.some.inj h
        omega
      · exact nomatch h

/-- Digits are read onto a number one by one, each making it ten times as large and adding itself.
-/
theorem digits_onto?_eq_some {before value : Nat} {cs : List Char} :
    digitsOnto? 10 before cs = some value ↔ (∀ c ∈ cs, isDigit c = true) ∧
      cs.foldl (fun value c => value * 10 + (c.toNat - 48)) before = value := by
  induction cs generalizing before with
  | nil => simp [digitsOnto?]
  | cons c rest ih =>
      rw [digitsOnto?, List.forall_mem_cons, List.foldl_cons]
      by_cases hc : isDigit c = true
      · obtain ⟨hvalue, hsmall⟩ := digit_value?_of_is_digit hc
        simp only [hvalue, hsmall, ↓reduceIte, ih, hc, true_and]
      · -- Every other character ends the number, a digit of a larger base included.
        have hnone : ∀ digit, digitValue? c = some digit → ¬ digit < 10 :=
          fun digit hdigit hsmall => hc (is_digit_of_digit_value? hdigit hsmall)
        cases hdigit : digitValue? c with
        | none => simp [hc]
        | some digit => simp [hc, hnone digit hdigit]

/-- Decimal digits are read as the number that they spell, and nothing else is. -/
theorem natural?_eq_some {value : Nat} {cs : List Char} :
    natural? 10 cs = some value ↔ AreDigits cs ∧ valueOf cs = value := by
  cases cs with
  | nil => simp [natural?, AreDigits]
  | cons c rest => simp [natural?, AreDigits, digits_onto?_eq_some, valueOf]

/-- Decimal digits are read as the number that they spell. -/
theorem natural?_digits {cs : List Char} (h : AreDigits cs) :
    natural? 10 cs = some (valueOf cs) :=
  natural?_eq_some.2 ⟨h, rfl⟩

/-! ## Signs -/

/-- A plus sign before digits is passed over. -/
theorem unsigned?_plus (cs : List Char) : unsigned? 10 ('+' :: cs) = natural? 10 cs := rfl

/-- Without a plus sign the text is read as digits. -/
theorem unsigned?_of_head {cs : List Char} (h : ∀ rest, cs ≠ '+' :: rest) :
    unsigned? 10 cs = natural? 10 cs := by
  unfold unsigned?
  split
  · exact absurd rfl (h _)
  · rfl

/-- A minus sign turns the number of the digits around. -/
theorem signed?_minus (cs : List Char) :
    signed? 10 ('-' :: cs) = (natural? 10 cs).map fun size : Nat => -(size : Int) := by
  rw [signed?]
  cases natural? 10 cs <;> rfl

/-- Without a minus sign the text is read as a number without one. -/
theorem signed?_of_head {cs : List Char} (h : ∀ rest, cs ≠ '-' :: rest) :
    signed? 10 cs = (unsigned? 10 cs).map fun size : Nat => (size : Int) := by
  rw [signed?]
  · cases unsigned? 10 cs <;> rfl
  · exact h

/-- Digits come without a sign in front. -/
theorem AreDigits.ne_cons {digits : List Char} (h : AreDigits digits) {sign : Char}
    (hsign : isDigit sign = false) (rest : List Char) : digits ≠ sign :: rest := by
  rintro rfl
  exact absurd (h.2 sign List.mem_cons_self) (by simp [hsign])

/-- Digits without a sign are read as their number. -/
theorem unsigned?_digits {digits : List Char} (h : AreDigits digits) :
    unsigned? 10 digits = some (valueOf digits) := by
  rw [unsigned?_of_head (h.ne_cons (by decide)), natural?_digits h]

/-- Digits are read as their number where a sign could stand. -/
theorem signed?_digits {digits : List Char} (h : AreDigits digits) :
    signed? 10 digits = some (valueOf digits : Int) := by
  rw [signed?_of_head (h.ne_cons (by decide)), unsigned?_digits h, Option.map_some]

/-! ## Spellings -/

/-- The whole numbers in text: one or more digits after an optional sign. -/
inductive Spells : List Char → Int → Prop where
  | bare {digits : List Char} (h : AreDigits digits) : Spells digits (valueOf digits)
  | plus {digits : List Char} (h : AreDigits digits) : Spells ('+' :: digits) (valueOf digits)
  | minus {digits : List Char} (h : AreDigits digits) :
      Spells ('-' :: digits) (-(valueOf digits : Int))

/-- The texts that are read with a sign are the spellings. -/
theorem signed?_eq_some {cs : List Char} {value : Int} :
    signed? 10 cs = some value ↔ Spells cs value := by
  constructor
  · intro h
    by_cases hminus : ∃ rest, cs = '-' :: rest
    · obtain ⟨rest, rfl⟩ := hminus
      rw [signed?_minus, Option.map_eq_some_iff] at h
      obtain ⟨size, hsize, rfl⟩ := h
      obtain ⟨hdigits, rfl⟩ := natural?_eq_some.1 hsize
      exact .minus hdigits
    · rw [signed?_of_head (not_exists.1 hminus), Option.map_eq_some_iff] at h
      obtain ⟨size, hsize, rfl⟩ := h
      by_cases hplus : ∃ rest, cs = '+' :: rest
      · obtain ⟨rest, rfl⟩ := hplus
        rw [unsigned?_plus] at hsize
        obtain ⟨hdigits, rfl⟩ := natural?_eq_some.1 hsize
        exact .plus hdigits
      · rw [unsigned?_of_head (not_exists.1 hplus)] at hsize
        obtain ⟨hdigits, rfl⟩ := natural?_eq_some.1 hsize
        exact .bare hdigits
  · intro h
    cases h with
    | bare h => exact signed?_digits h
    | plus h =>
        rw [signed?_of_head (by simp), unsigned?_plus, natural?_digits h, Option.map_some]
    | minus h => rw [signed?_minus, natural?_digits h, Option.map_some]

/-- A number with a sign is read of the spellings of the numbers within its width. -/
theorem Width.read?_eq_some {bits : Nat} {cs : List Char} {value : Int} :
    (Width.mk true bits).read? 10 cs = some value ↔
      Spells cs value ∧ (Width.mk true bits).holds value = true := by
  rw [read?, if_pos rfl, Option.filter_eq_some_iff, signed?_eq_some]

/-! ## Written numbers -/

/-- A number is written with decimal digits. -/
theorem to_digits_are_digits (n : Nat) : AreDigits (Nat.toDigits 10 n) :=
  ⟨Nat.toDigits_ne_nil, fun _ => is_digit_of_mem_to_digits⟩

/-- The digits in which a number is written spell it. -/
theorem value_of_to_digits (n : Nat) : valueOf (Nat.toDigits 10 n) = n :=
  (natural?_eq_some.1 (natural?_to_digits n)).2

/-- Zero and the positive numbers are written without a sign. -/
theorem to_string_nat_cast (n : Nat) : (toString (n : Int)).toList = Nat.toDigits 10 n := by
  show (Nat.repr n).toList = _
  simp [Nat.repr]

/-- The negative numbers are written with a minus sign. -/
theorem to_string_neg_succ (n : Nat) :
    (toString (Int.negSucc n)).toList = '-' :: Nat.toDigits 10 (n + 1) := by
  show ("-" ++ Nat.repr (n + 1)).toList = _
  simp [Nat.repr]

/-- A written number is read back in the widths that hold it, and in no other. -/
theorem Width.read?_to_string (width : Width) (value : Int) :
    width.read? 10 (toString value).toList =
      if width.holds value then some value else none := by
  obtain ⟨isSigned, bits⟩ := width
  cases value with
  | ofNat n =>
      have hread : (if isSigned then signed? 10 (toString (n : Int)).toList
          else (unsigned? 10 (toString (n : Int)).toList).map fun value => (value : Int)) =
            some (n : Int) := by
        rw [to_string_nat_cast, signed?_digits (to_digits_are_digits n),
          unsigned?_digits (to_digits_are_digits n), value_of_to_digits]
        cases isSigned <;> rfl
      rw [read?, Int.ofNat_eq_natCast, hread, Option.filter_some]
  | negSucc n =>
      cases isSigned with
      | true =>
          have hread : signed? 10 (toString (Int.negSucc n)).toList = some (Int.negSucc n) := by
            rw [to_string_neg_succ, signed?_eq_some]
            have hvalue : Int.negSucc n = -(valueOf (Nat.toDigits 10 (n + 1)) : Int) := by
              rw [value_of_to_digits]
              rfl
            rw [hvalue]
            exact .minus (to_digits_are_digits (n + 1))
          rw [read?, if_pos rfl, hread, Option.filter_some]
      | false =>
          -- The sign is no digit, and no negative number is within the width.
          have hread : unsigned? 10 (toString (Int.negSucc n)).toList = none := by
            rw [to_string_neg_succ, unsigned?_of_head (by simp), Option.eq_none_iff_forall_ne_some]
            intro value hvalue
            have hsign : isDigit '-' = false := by decide
            exact (natural?_eq_some.1 hvalue).1.ne_cons hsign _ rfl
          have hholds : (Width.mk false bits).holds (Int.negSucc n) = false := by
            have hnegative : ¬ (0 : Int) ≤ Int.negSucc n := by omega
            simp [holds, least, hnegative]
          rw [read?, hread, hholds]
          rfl

end Decimal

end BehaviorTree
