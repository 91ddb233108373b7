import BehaviorTree.Proofs.Numerals
import Mathlib.Algebra.Group.Int.Defs

/-!
# What sets a flag

A flag is set by three words in any case of ASCII letters and by whole numbers other than zero. The
numbers are read in 64 bits with a sign, so a number beyond them counts as no number at all and
leaves the flag unset (`Arguments.flag_iff`, `Arguments.flag_overlooks_large`).
-/

namespace BehaviorTree.Arguments

open Decimal (Spells Width)

/-- The words that set a flag. -/
def flagWords : List String := ["true", "yes", "on"]

/-- Texts in lower case are compared by their characters. -/
theorem to_lower_eq_iff {text word : String} :
    text.toLower = word ↔ text.toList.map Char.toLower = word.toList := by
  have hmap : text.toLower.toList = text.toList.map Char.toLower := String.toList_map
  rw [← String.toList_inj, hmap]

/-- A text is one of the words up to the case of ASCII letters if its characters in lower case are
those of a word. -/
theorem to_lower_mem_flag_words {text : String} :
    text.toLower ∈ flagWords ↔
      text.toList.map Char.toLower = "true".toList ∨ text.toList.map Char.toLower = "yes".toList ∨
        text.toList.map Char.toLower = "on".toList := by
  simp only [flagWords, List.mem_cons, List.not_mem_nil, or_false, to_lower_eq_iff]

/-- A number of 64 bits other than zero, in any of its spellings. -/
theorem whole?_any_ne_zero {text : String} :
    ((whole? Width.integer64 text).any fun value => value ≠ 0) = true ↔
      ∃ value, Spells text.toList value ∧ value ≠ 0 ∧ -2 ^ 63 ≤ value ∧ value < 2 ^ 63 := by
  have hholds (value : Int) :
      Width.integer64.holds value = true ↔ -2 ^ 63 ≤ value ∧ value < 2 ^ 63 := by
    have hleast : Width.integer64.least = -2 ^ 63 := by decide
    have hgreatest : Width.integer64.greatest = 2 ^ 63 - 1 := by decide
    simp only [Width.holds, hleast, hgreatest, Bool.and_eq_true, decide_eq_true_eq]
    omega
  rw [Option.any_eq_true]
  constructor
  · rintro ⟨value, hvalue, hzero⟩
    obtain ⟨hspells, hwidth⟩ := Width.read?_eq_some.1 hvalue
    exact ⟨value, hspells, of_decide_eq_true hzero, (hholds value).1 hwidth⟩
  · rintro ⟨value, hspells, hzero, hrange⟩
    exact ⟨value, Width.read?_eq_some.2 ⟨hspells, (hholds value).2 hrange⟩, decide_eq_true hzero⟩

/-- A flag is set just in case its trimmed text is one of the words, up to the case of ASCII
letters, or spells a whole number other than zero within 64 bits with a sign. -/
theorem flag_iff (args : Arguments) (index : Nat) :
    args.flag index = true ↔
      (args.text index).toLower ∈ flagWords ∨
        ∃ value, Spells (args.text index).toList value ∧ value ≠ 0 ∧
          -2 ^ 63 ≤ value ∧ value < 2 ^ 63 := by
  rw [to_lower_mem_flag_words, ← whole?_any_ne_zero, flag, isSet]
  simp only [Bool.or_eq_true, decide_eq_true_eq, or_assoc]

/-- The first number beyond the 64 bits is spelled like any other and is not zero, and still it
leaves a flag unset. -/
theorem flag_overlooks_large :
    let args : Arguments := ⟨["9223372036854775808"]⟩
    args.flag 0 = false ∧ ∃ value, Spells (args.text 0).toList value ∧ value ≠ 0 := by
  intro args
  have hread : Decimal.signed? 10 (args.text 0).toList = some (2 ^ 63) := by decide +kernel
  exact ⟨by decide +kernel, 2 ^ 63, Decimal.signed?_eq_some.1 hread, by decide⟩

end BehaviorTree.Arguments
