import Mathlib.Data.List.Basic
import Mathlib.Data.String.Basic
import Mathlib.Order.Defs.LinearOrder

/-!
# Texts in the order of their bytes

Texts are compared by code points. Comparing the bytes of their UTF-8 forms comes to the same
(`Text.bytes_lt_iff`): the smaller of two characters has the smaller bytes, and no form begins
another one (`Text.encode_lt`). Sorted names that are all different therefore rise strictly by
their bytes (`Text.sorted_ascending`).
-/

namespace BehaviorTree.Text

/-- The bytes of a text in UTF-8. -/
def bytes (text : String) : List UInt8 := text.toByteArray.data.toList

/-- The bytes of a text are those of its characters, one after the other. -/
theorem bytes_eq (text : String) : bytes text = text.toList.flatMap String.utf8EncodeChar := by
  rw [bytes, ← String.utf8Encode_toList]
  simp [List.utf8Encode]

/-- Whatever comes behind them, the bytes of two characters are in the order of the characters. -/
theorem encode_lt {c d : Char} (h : c < d) (early late : List UInt8) :
    String.utf8EncodeChar c ++ early < String.utf8EncodeChar d ++ late := by
  have hval : c.val.toNat < d.val.toNat := h
  have hbound : d.val.toNat < 0x110000 := by
    have hvalid := d.valid
    rw [UInt32.isValidChar, Nat.isValidChar] at hvalid
    omega
  -- The longer form starts with the larger byte. In forms of one length the bytes hold the digits
  -- of the code point to the base 64, the highest first.
  fun_cases String.utf8EncodeChar c <;> fun_cases String.utf8EncodeChar d <;>
    simp (disch := omega) only [List.cons_append, List.nil_append, List.cons_lt_cons_iff,
      UInt8.lt_iff_toNat_lt, ← UInt8.toNat_inj, UInt8.toNat_ofNat', Nat.reducePow,
      Nat.mod_eq_of_lt, Nat.add_lt_add_iff_right, Nat.add_right_cancel_iff] <;>
    omega

/-- Texts are in the order of their bytes if they are in the order of their characters. -/
theorem flat_map_encode_lt {early late : List Char} (h : early < late) :
    early.flatMap String.utf8EncodeChar < late.flatMap String.utf8EncodeChar := by
  induction h with
  | @nil d late =>
      obtain ⟨first, rest, hd⟩ := List.exists_cons_of_ne_nil (String.utf8EncodeChar_ne_nil (c := d))
      rw [List.flatMap_cons, hd]
      exact List.nil_lt_cons _ _
  | rel h => exact encode_lt h _ _
  | cons h ih => exact List.append_left_lt ih

/-- Texts are ordered by their bytes as they are by their code points. -/
theorem bytes_lt_iff {early late : String} : bytes early < bytes late ↔ early < late := by
  have hbytes : ∀ {a b : String}, a < b → bytes a < bytes b := fun h => by
    rw [bytes_eq, bytes_eq]
    exact flat_map_encode_lt h
  refine ⟨fun h => ?_, hbytes⟩
  rcases lt_trichotomy early late with hlt | rfl | hgt
  · exact hlt
  · exact absurd h (List.lt_irrefl _)
  · exact absurd h (List.lt_asymm (hbytes hgt))

/-- Sorted names rise strictly by their bytes if no name is there twice. -/
theorem sorted_ascending {names : List String} (h : names.Nodup) :
    (names.mergeSort fun a b => a ≤ b).Pairwise fun a b => bytes a < bytes b := by
  have hsorted : (names.mergeSort fun a b => a ≤ b).Pairwise fun a b => decide (a ≤ b) = true :=
    List.pairwise_mergeSort (by simpa using fun a b c : String => le_trans (a := a))
      (by simpa using fun a b : String => le_total a b) names
  have hnodup : (names.mergeSort fun a b => a ≤ b).Nodup :=
    (List.mergeSort_perm names _).nodup_iff.2 h
  refine (hsorted.and hnodup).imp fun {a b} hab => bytes_lt_iff.2 ?_
  exact lt_of_le_of_ne (of_decide_eq_true hab.1) hab.2

end BehaviorTree.Text
