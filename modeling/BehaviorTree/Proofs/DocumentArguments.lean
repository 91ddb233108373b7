import BehaviorTree.Proofs.Loading
import BehaviorTree.Proofs.Numerals
import BehaviorTree.Proofs.Registration

/-!
# Arguments of a document

What a document gives as an argument is written as a text, trimmed and read again by the factory.
Nothing is lost on the way: a whole number comes out as itself in every width that holds it and as
zero in all others (`Arguments.whole_of_values`), a truth value as itself, and nothing as the
default of whatever is read (`Arguments.ReadsDefault`). `Arguments.document_arguments` collects
this, with what it makes of a timed leaf.
-/

namespace BehaviorTree

variable {G : Game}

/-! ## Texts without blanks -/

namespace Text

/-- A text without blanks is not changed by trimming. -/
theorem trim_eq_self {text : String} (h : ∀ c ∈ text.toList, isBlank c = false) :
    trim text = text := by
  have hkept (cs : List Char) (hcs : ∀ c ∈ cs, isBlank c = false) : cs.dropWhile isBlank = cs := by
    cases cs with
    | nil => rfl
    | cons c rest => rw [List.dropWhile_cons_of_neg (by simp [hcs c List.mem_cons_self])]
  rw [trim, trimChars, hkept _ h, trimEndChars, hkept _ (by simpa using h), List.reverse_reverse,
    String.ofList_toList]

/-- Digits are no blanks. -/
theorem is_blank_of_is_digit {c : Char} (h : Decimal.isDigit c = true) : isBlank c = false := by
  obtain ⟨hlow, hhigh⟩ := Decimal.is_digit_iff.1 h
  unfold isBlank
  simp only [Bool.or_eq_false_iff, Bool.and_eq_false_iff, decide_eq_false_iff_not,
    beq_eq_false_iff_ne]
  omega

/-- A written number has no blanks around it. -/
theorem trim_to_string (value : Int) : trim (toString value) = toString value := by
  refine trim_eq_self fun c hc => ?_
  cases value with
  | ofNat n =>
      rw [Int.ofNat_eq_natCast, Decimal.to_string_nat_cast] at hc
      exact is_blank_of_is_digit (Decimal.is_digit_of_mem_to_digits hc)
  | negSucc n =>
      rw [Decimal.to_string_neg_succ, List.mem_cons] at hc
      obtain rfl | hc := hc
      · decide
      · exact is_blank_of_is_digit (Decimal.is_digit_of_mem_to_digits hc)

end Text

namespace Arguments

open Decimal (Width)

/-! ## Reading what a document gives -/

variable {values : List Yaml.Value} {index : Nat}

/-- The text of an argument is what the document writes for its value, trimmed. -/
theorem text_of_values {value : Yaml.Value} (h : values[index]? = some value) :
    (ofValues values).text index = Text.trim value.argument := by
  simp [text, ofValues, h]

/-- A whole number is read as itself where the width holds it, and never as another one. -/
theorem whole_of_values {value : Int} (h : values[index]? = some (.whole value)) (width : Width) :
    (ofValues values).whole width index = if width.holds value then value else 0 := by
  have htext : (ofValues values).text index = toString value :=
    (text_of_values h).trans (Text.trim_to_string value)
  rw [whole, whole?, htext, Width.read?_to_string]
  split <;> rfl

/-- A truth value sets a flag just in case it is true. -/
theorem flag_of_values {value : Bool} (h : values[index]? = some (.truth value)) :
    (ofValues values).flag index = value := by
  rw [flag, text_of_values h]
  cases value <;> decide +kernel

/-- What an argument reads as that says nothing: as the empty text, an unset flag, and the default
of every kind. -/
structure ReadsDefault (args : Arguments) (index : Nat) : Prop where
  text : args.text index = ""
  whole : ∀ width, args.whole width index = 0
  count : ∀ bits, args.count bits index = 0
  truth : args.truth index = false
  char : args.char index = '\x00'
  bits : ∀ format, args.bits format index = 0
  flag : args.flag index = false

/-- An empty text reads as the default of everything. -/
theorem reads_default_of_text {args : Arguments} (h : args.text index = "") :
    args.ReadsDefault index := by
  have hwhole (width : Width) : args.whole width index = 0 := by
    obtain ⟨isSigned, bits⟩ := width
    rw [Arguments.whole, h]
    cases isSigned <;> rfl
  refine ⟨h, hwhole, fun bits => ?_, ?_, ?_, fun format => ?_, ?_⟩
  · rw [Arguments.count, hwhole]
    rfl
  · rw [Arguments.truth, h]
    decide
  · rw [Arguments.char, h]
    decide
  · have hnothing : Decimal.numeral? "".toList = none := by decide
    rw [Arguments.bits, h, bits?, hnothing]
    rfl
  · rw [Arguments.flag, h]
    decide

/-- Null and a missing argument say nothing. -/
theorem of_values_reads_default (h : values[index]? = some .null ∨ values[index]? = none) :
    (ofValues values).ReadsDefault index := by
  refine reads_default_of_text ?_
  obtain h | h := h
  · rw [text_of_values h]
    decide
  · simp [Arguments.text, ofValues, h]

/-- Of whole numbers those within a width are read, in order. -/
theorem wholes_of_values (numbers : List Int) (width : Width) :
    (ofValues (numbers.map .whole)).wholes width = numbers.filter width.holds := by
  have hread : (whole? width ∘ (Text.trim ∘ Yaml.Value.argument) ∘ Yaml.Value.whole) =
      fun value => Option.guard width.holds value := by
    funext value
    show width.read? 10 (Text.trim (toString value)).toList = _
    rw [Text.trim_to_string, Width.read?_to_string]
    rfl
  rw [wholes, collect, texts, ofValues, List.map_map, List.map_map, List.filterMap_map, hread,
    List.filterMap_eq_filter]

end Arguments

/-! ## Timed leaves -/

/-- A node described without a condition and children is the one that its factory makes. -/
theorem NodePlan.build_lone {registry : Registry G} {shop : Workshop} {kind : String}
    {args : List Yaml.Value} {node : Node G} {rest : Supply}
    (h : registry.createNode? kind (.ofValues args) shop.supply = some (node, rest)) :
    (((mk kind args none []).build registry).outcome shop).1 = .ok node := by
  rw [build, Build.outcome_bind, Build.create_node_outcome h]
  rfl

namespace Registry

/-- The factory of timed leaves that the engine provides. -/
def timedFactory : NodeFactory G := single fun args head =>
  .timed head (milliseconds (args.count 64 0)) (args.flag 1)

/-- The name of timed leaves leads to their factory in the registry of the engine. -/
theorem builtins_timed : (builtins : Registry G).factory? .node "Timed" = some timedFactory := by
  rw [builtins, registerBuiltins, factory?_register_all, factory?_empty, Option.none_or]
  simp [builtinEntries, Entry.offers, timedFactory]

end Registry

/-- A description of a timed leaf makes a leaf of just so many milliseconds. -/
theorem NodePlan.build_timed {registry : Registry G}
    (htimed : registry.factory? .node "Timed" = Registry.builtins.factory? .node "Timed")
    (shop : Workshop) {duration : Nat} (hduration : duration < 2 ^ 64) (mustComplete : Bool) :
    (((mk "Timed" [.whole duration, .truth mustComplete] none []).build registry).outcome shop).1 =
      .ok (.timed { id := shop.supply.issue.1 } (duration * 1000000) mustComplete) := by
  let args := Arguments.ofValues [.whole duration, .truth mustComplete]
  have hcount : args.count 64 0 = duration := by
    have hholds : (Decimal.Width.mk false 64).holds duration = true := by
      have hgreatest : (Decimal.Width.mk false 64).greatest = 2 ^ 64 - 1 := by decide
      have hleast : (Decimal.Width.mk false 64).least = 0 := by decide
      simp only [Decimal.Width.holds, hgreatest, hleast, Bool.and_eq_true, decide_eq_true_eq]
      omega
    rw [Arguments.count, Arguments.whole_of_values rfl, if_pos hholds, Int.toNat_natCast]
  have hflag : args.flag 1 = mustComplete := Arguments.flag_of_values rfl
  have hmade : registry.createNode? "Timed" args shop.supply =
      some (Registry.timedFactory args shop.supply) := by
    show (registry.factory? .node "Timed").map _ = _
    rw [htimed, Registry.builtins_timed]
    rfl
  rw [build_lone hmade]
  show Except.ok (Node.timed _ (Registry.milliseconds (args.count 64 0)) (args.flag 1)) = _
  rw [hcount, hflag, Registry.milliseconds]
  rfl

namespace Arguments

open Decimal (Width)

/-- What a document gives reaches the factories as it was. Whatever else is in the list, a whole
number is read as itself in the widths that hold it and as zero in the others, a truth value sets a
flag or not, and null and what is missing read as the defaults. A list of whole numbers is read as
those within the width. So wherever the engine's timed leaves are registered, one that is described
by a number of milliseconds and a truth value has just that duration and is must-complete or not. -/
theorem document_arguments (values : List Yaml.Value) (index : Nat) {registry : Registry G}
    (htimed : registry.factory? .node "Timed" = Registry.builtins.factory? .node "Timed") :
    let args := ofValues values
    (∀ value, values[index]? = some (.whole value) →
      ∀ width : Width, args.whole width index = if width.holds value then value else 0) ∧
    (∀ value, values[index]? = some (.truth value) → args.flag index = value) ∧
    (values[index]? = some .null ∨ values[index]? = none → args.ReadsDefault index) ∧
    (∀ (numbers : List Int) (width : Width),
      (ofValues (numbers.map .whole)).wholes width = numbers.filter width.holds) ∧
    ∀ (shop : Workshop) (duration : Nat) (mustComplete : Bool), duration < 2 ^ 64 →
      (((NodePlan.mk "Timed" [.whole duration, .truth mustComplete] none []).build
        registry).outcome shop).1 =
          .ok (.timed { id := shop.supply.issue.1 } (duration * 1000000) mustComplete) := by
  refine ⟨fun value h width => ?_, fun value h => ?_, fun h => ?_, fun numbers width => ?_,
    fun shop duration mustComplete hduration => ?_⟩
  · exact whole_of_values h width
  · exact flag_of_values h
  · exact of_values_reads_default h
  · exact wholes_of_values numbers width
  · exact NodePlan.build_timed htimed shop hduration mustComplete

/-- The arguments `[300, true, ~]`, read at every position and behind the last one. Eight bits have
no room for the number, and the longest timed leaf lasts all the milliseconds that 64 bits hold. -/
theorem document_arguments_patrol :
    let args := ofValues [.whole 300, .truth true, .null]
    let longest : NodePlan :=
      .mk "Timed" [.whole (18446744073709551615 : Nat), .truth true] none []
    (args.whole ⟨false, 8⟩ 0 = 0 ∧ args.whole ⟨true, 16⟩ 0 = 300) ∧ args.flag 1 = true ∧
      args.ReadsDefault 2 ∧ args.ReadsDefault 3 ∧
      (ofValues ([-1, 300, 7].map .whole)).wholes ⟨false, 8⟩ = [7] ∧
      ((longest.build Demo.registry).outcome ⟨.start, #[]⟩).1 =
        .ok (.timed { id := ⟨0⟩ } 18446744073709551615000000 true) := by
  have htimed : Demo.registry.factory? .node "Timed" =
      Registry.builtins.factory? .node "Timed" := by
    rw [Demo.registry, Demo.register, Registry.factory?_register_all, Registry.builtins_timed,
      Option.some_or]
  have hlaws (index : Nat) :=
    document_arguments [.whole 300, .truth true, .null] index htimed
  refine ⟨⟨?_, ?_⟩, ?_, ?_, ?_, ?_, ?_⟩
  · exact (hlaws 0).1 300 rfl ⟨false, 8⟩
  · exact (hlaws 0).1 300 rfl ⟨true, 16⟩
  · exact (hlaws 1).2.1 true rfl
  · exact (hlaws 2).2.2.1 (.inl rfl)
  · exact (hlaws 3).2.2.1 (.inr rfl)
  · exact (hlaws 0).2.2.2.1 [-1, 300, 7] ⟨false, 8⟩
  · exact (hlaws 0).2.2.2.2 ⟨.start, #[]⟩ 18446744073709551615 true (by decide)

end Arguments

end BehaviorTree
