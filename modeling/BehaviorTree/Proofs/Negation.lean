import BehaviorTree.Agent.Evaluate

/-!
# Negated conjunctions and disjunctions

A conjunction and a disjunction are evaluated from left to right, up to the first member that
settles them. `Condition.interrogate` is what the two have in common: it evaluates members up to the
first that gives a certain answer, and tells which were evaluated and how each came out. What the
two come to is read off these answers (`evaluate_all_eq`, `evaluate_any_eq`).

To interrogate negations is to interrogate what they negate, with opposite answers
(`interrogate_negations`). So a negated conjunction is the disjunction of the negations, and a
negated disjunction the conjunction of the negations, not only in their truth: the same members are
evaluated in the same order, and all that they do to the agent on the way is the same (`de_morgan`).
-/

namespace BehaviorTree

variable {G : Game} {rules : Rules G} {node : Node G}

namespace Condition

/-- The negation of a condition. -/
def negated (condition : Condition G) : Condition G := negation (some condition)

/-- Evaluates conditions up to the first that comes out as `last`, and tells which were evaluated
and how each came out. -/
def interrogate (rules : Rules G) (node : Node G) (last : Bool) :
    List (Condition G) → Play G (List (Condition G × Bool))
  | [] => pure []
  | condition :: rest => do
      let holds ← condition.evaluate rules node
      if holds = last then return [(condition, holds)]
      else
        let answers ← interrogate rules node last rest
        return (condition, holds) :: answers

/-- The negations of conditions that were evaluated, with the opposite answers. -/
def opposites (answers : List (Condition G × Bool)) : List (Condition G × Bool) :=
  answers.map fun answer => (answer.1.negated, !answer.2)

/-- A negation has the opposite answer and does the same besides. -/
theorem evaluate_negated (condition : Condition G) :
    condition.negated.evaluate rules node = (! ·) <$> condition.evaluate rules node := by
  rw [negated, evaluate, evaluateNot, map_eq_pure_bind]

/-- A conjunction holds if every member that was evaluated did. -/
theorem evaluate_all_eq (conditions : List (Condition G)) :
    evaluateAll rules node conditions =
      (fun answers => answers.all Prod.snd) <$> interrogate rules node false conditions := by
  induction conditions with
  | nil =>
      rw [evaluateAll, interrogate, map_pure]
      rfl
  | cons condition rest ih =>
      rw [evaluateAll, interrogate, map_bind]
      congr 1
      funext holds
      cases holds with
      | false => simp
      | true => simp [ih]

/-- A disjunction holds if some member that was evaluated did. -/
theorem evaluate_any_eq (conditions : List (Condition G)) :
    evaluateAny rules node conditions =
      (fun answers => answers.any Prod.snd) <$> interrogate rules node true conditions := by
  induction conditions with
  | nil =>
      rw [evaluateAny, interrogate, map_pure]
      rfl
  | cons condition rest ih =>
      rw [evaluateAny, interrogate, map_bind]
      congr 1
      funext holds
      cases holds with
      | false => simp [ih]
      | true => simp

/-- The conditions that are evaluated come first among the given ones. -/
theorem interrogate_prefix (last : Bool) (conditions : List (Condition G)) (agent : Agent G) :
    (interrogate rules node last conditions agent).value.map Prod.fst <+: conditions := by
  induction conditions generalizing agent with
  | nil => exact List.prefix_rfl
  | cons condition rest ih =>
      rw [interrogate, Play.bind_apply]
      dsimp only
      split
      · exact ⟨rest, rfl⟩
      · exact List.prefix_cons_inj condition |>.2 (ih _)

/-- Where one goes through negations, what they negate is evaluated up to the same place, and every
answer is the opposite. -/
theorem interrogate_negations (last : Bool) (conditions : List (Condition G)) :
    interrogate rules node (!last) (conditions.map negated) =
      opposites <$> interrogate rules node last conditions := by
  induction conditions with
  | nil =>
      show interrogate rules node (!last) [] = _
      rw [interrogate, interrogate, map_pure]
      rfl
  | cons condition rest ih =>
      rw [List.map_cons, interrogate, interrogate, evaluate_negated, ih, map_bind, bind_map_left]
      congr 1
      funext holds
      by_cases hlast : holds = last
      · simp [hlast, opposites]
      · have hgoes : (!holds) ≠ !last := fun heq => hlast (Bool.not_inj heq)
        simp [hlast, hgoes, opposites]

/-- One of the opposite answers is true unless all answers were. -/
theorem any_opposites (answers : List (Condition G × Bool)) :
    (opposites answers).any Prod.snd = !answers.all Prod.snd := by
  rw [opposites, List.any_map, List.not_all_eq_any_not]
  rfl

/-- All of the opposite answers are true unless one answer was. -/
theorem all_opposites (answers : List (Condition G × Bool)) :
    (opposites answers).all Prod.snd = !answers.any Prod.snd := by
  rw [opposites, List.all_map, List.not_any_eq_all_not]
  rfl

variable (rules node)

/-- A negated conjunction does the same as the disjunction of the negations. -/
theorem negated_conjunction (conditions : List (Condition G)) :
    (conjunction conditions).negated.evaluate rules node =
      (disjunction (conditions.map negated)).evaluate rules node := by
  rw [evaluate_negated, evaluate, evaluate, evaluate_all_eq, evaluate_any_eq]
  have hnegations : interrogate rules node true (conditions.map negated) =
      opposites <$> interrogate rules node false conditions :=
    interrogate_negations false conditions
  rw [hnegations, Functor.map_map, Functor.map_map]
  simp only [any_opposites]

/-- A negated disjunction does the same as the conjunction of the negations. -/
theorem negated_disjunction (conditions : List (Condition G)) :
    (disjunction conditions).negated.evaluate rules node =
      (conjunction (conditions.map negated)).evaluate rules node := by
  rw [evaluate_negated, evaluate, evaluate, evaluate_all_eq, evaluate_any_eq]
  have hnegations : interrogate rules node false (conditions.map negated) =
      opposites <$> interrogate rules node true conditions :=
    interrogate_negations true conditions
  rw [hnegations, Functor.map_map, Functor.map_map]
  simp only [all_opposites]

/-- What two lists of conditions have in common, of which the first is asked for a false member and
the second for a true one, or the other way round: the same members are evaluated in the same order,
the first ones up to one that settles the matter, on the second side each under its negation. -/
structure SameMembers (rules : Rules G) (node : Node G) (last : Bool)
    (conditions negations : List (Condition G)) : Prop where
  first : ∀ agent,
    (interrogate rules node last conditions agent).value.map Prod.fst <+: conditions
  same : interrogate rules node (!last) negations =
    opposites <$> interrogate rules node last conditions

/-- The negations of conditions are evaluated where the conditions would be, in the same order. -/
theorem same_members (last : Bool) (conditions : List (Condition G)) :
    SameMembers rules node last conditions (conditions.map negated) where
  first := interrogate_prefix last conditions
  same := interrogate_negations last conditions

/-- The laws of De Morgan, effects included. Whatever the conditions, for every node and from every
agent, the negation of their conjunction gives the same answer as the disjunction of their negations
and leaves the same agent and the same notes, and so does the negation of their disjunction and the
conjunction of their negations. What a conjunction evaluates is what is asked for a false member,
and what a disjunction evaluates is what is asked for a true one, and of the two sides of a law
these are the same members in the same order. -/
theorem de_morgan (conditions : List (Condition G)) :
    let negations := conditions.map negated
    (((conjunction conditions).negated.evaluate rules node =
        (disjunction negations).evaluate rules node ∧
      SameMembers rules node false conditions negations) ∧
    ((disjunction conditions).negated.evaluate rules node =
        (conjunction negations).evaluate rules node ∧
      SameMembers rules node true conditions negations)) ∧
    ∀ members : List (Condition G),
      (conjunction members).evaluate rules node =
        (fun answers => answers.all Prod.snd) <$> interrogate rules node false members ∧
      (disjunction members).evaluate rules node =
        (fun answers => answers.any Prod.snd) <$> interrogate rules node true members := by
  intro negations
  refine ⟨⟨⟨?_, ?_⟩, ?_, ?_⟩, fun members => ⟨?_, ?_⟩⟩
  · exact negated_conjunction rules node conditions
  · exact same_members rules node false conditions
  · exact negated_disjunction rules node conditions
  · exact same_members rules node true conditions
  · rw [evaluate, evaluate_all_eq]
  · rw [evaluate, evaluate_any_eq]

end Condition

end BehaviorTree
