import BehaviorTree.Text.Blank
import BehaviorTree.Tree.Condition

/-!
# Skeletons

What remains of a tree when only the labels of its nodes are kept. There are two ways to write it
down, and neither loses anything:

* as the list of its labels in preorder, each with its depth (`Skeleton.levels_append_injective`),
* if the labels are names, with what stands below a label in parentheses after it, as conditions
  are described (`Skeleton.text_append_injective`).

Both are read from the front, so both are stated with what follows: an entry that is not deeper, or
a character that ends a description.
-/

namespace BehaviorTree

/-- A stretch of characters of a kind ends where the first other one follows. -/
theorem Text.stretch_injective {p : Char → Prop} {front front' rest rest' : List Char}
    (hfront : ∀ c ∈ front, p c) (hfront' : ∀ c ∈ front', p c)
    (hrest : ∀ c ∈ rest.head?, ¬ p c) (hrest' : ∀ c ∈ rest'.head?, ¬ p c)
    (h : front ++ rest = front' ++ rest') : front = front' ∧ rest = rest' := by
  induction front generalizing front' with
  | nil =>
      cases front' with
      | nil => exact ⟨rfl, h⟩
      | cons c front' =>
          rw [List.nil_append] at h
          exact absurd (hfront' c List.mem_cons_self) (hrest c (by rw [h]; rfl))
  | cons c front ih =>
      cases front' with
      | nil =>
          rw [List.nil_append] at h
          exact absurd (hfront c List.mem_cons_self) (hrest' c (by rw [← h]; rfl))
      | cons c' front' =>
          rw [List.cons_append, List.cons_append, List.cons.injEq] at h
          obtain ⟨rfl, htail⟩ := h
          obtain ⟨rfl, rfl⟩ := ih (fun d hd => hfront d (List.mem_cons_of_mem _ hd))
            (fun d hd => hfront' d (List.mem_cons_of_mem _ hd)) htail
          exact ⟨rfl, rfl⟩

/-- A tree of labels. -/
inductive Skeleton (α : Type) where
  | mk (label : α) (below : List (Skeleton α))

namespace Skeleton

variable {α : Type}

/-- Whether every label of a skeleton has a property. -/
inductive All (p : α → Prop) : Skeleton α → Prop where
  | mk {label : α} {below : List (Skeleton α)} (self : p label) (all : ∀ s ∈ below, All p s) :
      All p (mk label below)

/-- A property holds of all labels if it holds of the label on top and of all those below. -/
theorem all_mk {p : α → Prop} {label : α} {below : List (Skeleton α)} :
    All p (mk label below) ↔ p label ∧ ∀ s ∈ below, All p s :=
  ⟨fun ⟨self, all⟩ => ⟨self, all⟩, fun ⟨self, all⟩ => ⟨self, all⟩⟩

/-! ## Labels with their depths -/

mutual

/-- The labels in preorder, each with its depth. -/
def levels (depth : Nat) : Skeleton α → List (Nat × α)
  | mk label below => (depth, label) :: levelsAll (depth + 1) below

/-- The labels of several skeletons, one skeleton after the other. -/
def levelsAll (depth : Nat) : List (Skeleton α) → List (Nat × α)
  | [] => []
  | s :: rest => levels depth s ++ levelsAll depth rest

end

/-- Several skeletons are listed one after the other. -/
theorem levels_all_eq (depth : Nat) (below : List (Skeleton α)) :
    levelsAll depth below = below.flatMap (levels depth) := by
  induction below with
  | nil => rfl
  | cons s rest ih => rw [levelsAll, ih, List.flatMap_cons]

/-- What follows a listing without going on with it: nothing, or an entry further up. -/
def EndsAbove (depth : Nat) (rest : List (Nat × α)) : Prop := ∀ entry ∈ rest.head?, entry.1 < depth

/-- What ends a listing further up ends one that is a level deeper, behind skeletons that go before
it. -/
theorem ends_above_levels_all {depth : Nat} {rest : List (Nat × α)} (hrest : EndsAbove depth rest)
    (below : List (Skeleton α)) : EndsAbove (depth + 1) (levelsAll depth below ++ rest) := by
  cases below with
  | nil => exact fun entry hentry => Nat.lt_succ_of_lt (hrest entry hentry)
  | cons s more =>
      cases s with
      | mk label inner =>
          rintro entry hentry
          obtain rfl : (depth, label) = entry := Option.some.inj hentry
          exact Nat.lt_succ_self depth

mutual

/-- A skeleton is read off its listing: after the first label, what is deeper stands below it. -/
theorem levels_append_injective {s s' : Skeleton α} {depth : Nat} {rest rest' : List (Nat × α)}
    (hrest : EndsAbove (depth + 1) rest) (hrest' : EndsAbove (depth + 1) rest')
    (h : levels depth s ++ rest = levels depth s' ++ rest') : s = s' ∧ rest = rest' := by
  cases s with
  | mk label below =>
      cases s' with
      | mk label' below' =>
          simp only [levels, List.cons_append, List.cons.injEq, Prod.mk.injEq, true_and] at h
          obtain ⟨rfl, hbelow⟩ := h
          obtain ⟨rfl, rfl⟩ := levels_all_append_injective hrest hrest' hbelow
          exact ⟨rfl, rfl⟩

/-- Skeletons in a row can be read from the front of their listing. -/
theorem levels_all_append_injective {below below' : List (Skeleton α)} {depth : Nat}
    {rest rest' : List (Nat × α)} (hrest : EndsAbove depth rest) (hrest' : EndsAbove depth rest')
    (h : levelsAll depth below ++ rest = levelsAll depth below' ++ rest') :
    below = below' ∧ rest = rest' := by
  match below, below' with
  | [], [] => exact ⟨rfl, h⟩
  | [], mk label _ :: _ =>
      rw [levelsAll, List.nil_append] at h
      exact absurd (hrest (depth, label) (by rw [h]; rfl)) (Nat.lt_irrefl depth)
  | mk label _ :: _, [] =>
      rw [levelsAll, levelsAll, List.nil_append] at h
      exact absurd (hrest' (depth, label) (by rw [← h]; rfl)) (Nat.lt_irrefl depth)
  | s :: more, s' :: more' =>
      simp only [levelsAll, List.append_assoc] at h
      obtain ⟨rfl, hmore⟩ := levels_append_injective (ends_above_levels_all hrest more)
        (ends_above_levels_all hrest' more') h
      obtain ⟨rfl, rfl⟩ := levels_all_append_injective hrest hrest' hmore
      exact ⟨rfl, rfl⟩

end

/-! ## Descriptions -/

/-- Characters of names: neither white space nor one of the signs that descriptions use. -/
def InName (c : Char) : Prop := Text.isBlank c = false ∧ c ∉ ['(', ')', '[', ']', ',', '#']

instance (c : Char) : Decidable (InName c) := inferInstanceAs (Decidable (_ ∧ _))

/-- Whether a text can be told from what stands around it. -/
def IsName (name : String) : Prop := name ≠ "" ∧ ∀ c ∈ name.toList, InName c

instance (name : String) : Decidable (IsName name) :=
  @instDecidableAnd _ _ _ (List.decidableBAll InName name.toList)

mutual

/-- A name with what stands below it in parentheses, if anything does. -/
def text : Skeleton String → String
  | mk name below => Condition.written name (textAll below)

/-- The texts of several skeletons, in order. -/
def textAll : List (Skeleton String) → List String
  | [] => []
  | s :: rest => text s :: textAll rest

end

/-- What follows the first of several descriptions, up to the closing parenthesis and beyond. -/
def further (below : List (Skeleton String)) (rest : List Char) : List Char :=
  below.flatMap (fun s => ',' :: ' ' :: s.text.toList) ++ ')' :: rest

/-- The first of further descriptions stands after a comma and a blank. -/
theorem further_cons (s : Skeleton String) (below : List (Skeleton String)) (rest : List Char) :
    further (s :: below) rest = ',' :: ' ' :: (s.text.toList ++ further below rest) := by
  simp [further]

/-- A description with nothing below is the name. -/
theorem text_nil (name : String) (rest : List Char) :
    (mk name []).text.toList ++ rest = name.toList ++ rest := rfl

/-- A description with something below has it in parentheses after the name. -/
theorem text_cons (name : String) (s : Skeleton String) (below : List (Skeleton String))
    (rest : List Char) : (mk name (s :: below)).text.toList ++ rest =
      name.toList ++ '(' :: (s.text.toList ++ further below rest) := by
  have hinner : ∀ (s : Skeleton String) (below : List (Skeleton String)),
      (", ".intercalate (textAll (s :: below))).toList =
        s.text.toList ++ below.flatMap (fun s => ',' :: ' ' :: s.text.toList) := by
    intro s below
    induction below generalizing s with
    | nil => simp [textAll]
    | cons t more ih =>
        simpa [textAll, String.toList_intercalate, List.intercalate] using ih t
  rw [text]
  show (name ++ "(" ++ ", ".intercalate (textAll (s :: below)) ++ ")").toList ++ rest = _
  simp [further, hinner]

/-- What follows a description without going on with it. -/
def EndsText (rest : List Char) : Prop := ∀ c ∈ rest.head?, c = ',' ∨ c = ')'

/-- What ends a description is no part of a name. -/
theorem EndsText.not_in_name {rest : List Char} (h : EndsText rest) :
    ∀ c ∈ rest.head?, ¬ InName c := by
  intro c hc
  rcases h c hc with rfl | rfl <;> decide

/-- Further descriptions end the one before them. -/
theorem ends_text_further (below : List (Skeleton String)) (rest : List Char) :
    EndsText (further below rest) := by
  cases below with
  | nil => simp [EndsText, further]
  | cons s below => simp [EndsText, further_cons]

/-- Further descriptions can be read from the front if each of them can. -/
theorem further_injective {below below' : List (Skeleton String)} {rest rest' : List Char}
    (hall : ∀ s ∈ below, ∀ {s' rest rest'}, s'.All IsName → EndsText rest → EndsText rest' →
      s.text.toList ++ rest = s'.text.toList ++ rest' → s = s' ∧ rest = rest')
    (hall' : ∀ s ∈ below', s.All IsName) (h : further below rest = further below' rest') :
    below = below' ∧ rest = rest' := by
  induction below generalizing below' with
  | nil =>
      cases below' with
      | nil => exact ⟨rfl, (List.cons.inj h).2⟩
      | cons s' below' =>
          rw [further_cons] at h
          exact absurd (List.cons.inj h).1 (by decide)
  | cons s below ih =>
      cases below' with
      | nil =>
          rw [further_cons] at h
          exact absurd (List.cons.inj h).1 (by decide)
      | cons s' below' =>
          simp only [further_cons, List.cons.injEq, true_and] at h
          obtain ⟨rfl, hmore⟩ := hall s List.mem_cons_self (hall' s' List.mem_cons_self)
            (ends_text_further below rest) (ends_text_further below' rest') h
          obtain ⟨rfl, rfl⟩ := ih (fun t ht => hall t (List.mem_cons_of_mem _ ht))
            (fun t ht => hall' t (List.mem_cons_of_mem _ ht)) hmore
          exact ⟨rfl, rfl⟩

/-- A skeleton is read off its description: the name goes up to the first sign that is not part
of names, and an opening parenthesis tells whether anything stands below it. -/
theorem text_append_injective {s s' : Skeleton String} {rest rest' : List Char}
    (hs : s.All IsName) (hs' : s'.All IsName) (hrest : EndsText rest) (hrest' : EndsText rest')
    (h : s.text.toList ++ rest = s'.text.toList ++ rest') : s = s' ∧ rest = rest' := by
  induction hs generalizing s' rest rest' with
  | @mk name below hname hbelow ih =>
      cases hs' with
      | @mk name' below' hname' hbelow' =>
          have hopen : ∀ (tail : List Char), ∀ c ∈ ('(' :: tail).head?, ¬ InName c := by
            rintro tail c ⟨⟩
            decide
          -- The sign after the name tells which case it is, on either side.
          match below, below' with
          | [], [] =>
              obtain ⟨heq, rfl⟩ := Text.stretch_injective hname.2 hname'.2 hrest.not_in_name
                hrest'.not_in_name h
              obtain rfl := String.toList_inj.1 heq
              exact ⟨rfl, rfl⟩
          | [], t :: more =>
              rw [text_nil, text_cons] at h
              obtain ⟨-, rfl⟩ := Text.stretch_injective hname.2 hname'.2 hrest.not_in_name
                (hopen _) h
              exact absurd (hrest '(' rfl) (by decide)
          | t :: more, [] =>
              rw [text_nil, text_cons] at h
              obtain ⟨-, rfl⟩ := Text.stretch_injective hname.2 hname'.2 (hopen _)
                hrest'.not_in_name h
              have hends := hrest' '(' rfl
              exact absurd hends (by decide)
          | t :: more, t' :: more' =>
              rw [text_cons, text_cons] at h
              obtain ⟨heq, hbody⟩ := Text.stretch_injective hname.2 hname'.2 (hopen _) (hopen _) h
              obtain rfl := String.toList_inj.1 heq
              obtain ⟨rfl, hmore⟩ := ih t List.mem_cons_self (hbelow' t' List.mem_cons_self)
                (ends_text_further more rest) (ends_text_further more' rest')
                (List.cons.inj hbody).2
              obtain ⟨rfl, rfl⟩ := further_injective
                (fun u hu _ _ _ => ih u (List.mem_cons_of_mem _ hu))
                (fun u hu => hbelow' u (List.mem_cons_of_mem _ hu)) hmore
              exact ⟨rfl, rfl⟩

/-- A description has no line break. -/
theorem text_unbroken {s : Skeleton String} (h : s.All IsName) : '\n' ∉ s.text.toList := by
  induction h with
  | @mk name below hname _ ih =>
      have hlabel : '\n' ∉ name.toList := fun hmem => absurd (hname.2 _ hmem) (by decide)
      cases below with
      | nil => exact hlabel
      | cons t more =>
          have htext := text_cons name t more []
          rw [List.append_nil] at htext
          rw [htext]
          simp only [further, List.mem_append, List.mem_cons, List.mem_flatMap]
          rintro (hmem | hopen | hmem | ⟨u, hu, hcomma | hblank | hmem⟩ | hclose | hnil)
          · exact hlabel hmem
          · exact absurd hopen (by decide)
          · exact ih t List.mem_cons_self hmem
          · exact absurd hcomma (by decide)
          · exact absurd hblank (by decide)
          · exact ih u (List.mem_cons_of_mem _ hu) hmem
          · exact absurd hclose (by decide)
          · exact absurd hnil List.not_mem_nil

end Skeleton

/-! ## Skeletons of conditions -/

namespace Condition

variable {G : Game}

mutual

/-- The names of a condition and of the conditions nested in it. -/
def skeleton : Condition G → Skeleton String
  | condition@(conjunction conditions) | condition@(disjunction conditions) =>
      .mk condition.typeName (skeletonAll conditions)
  | condition@(negation inner) => .mk condition.typeName (skeletonInner inner)
  | condition@always | condition@never | condition@(selection _) | condition@(game _ _) =>
      .mk condition.typeName []

/-- The skeletons of conditions, in order. -/
def skeletonAll : List (Condition G) → List (Skeleton String)
  | [] => []
  | condition :: rest => skeleton condition :: skeletonAll rest

/-- The skeleton of an inner condition, if there is one. -/
def skeletonInner : Option (Condition G) → List (Skeleton String)
  | none => []
  | some condition => [skeleton condition]

end

mutual

/-- A description shows the skeleton of a condition and nothing more. -/
theorem text_skeleton (condition : Condition G) : condition.skeleton.text = condition.describe := by
  cases condition with
  | always | never | selection | game => rfl
  | conjunction conditions =>
      exact congrArg (written "And") (text_all_skeleton_all conditions)
  | disjunction conditions =>
      exact congrArg (written "Or") (text_all_skeleton_all conditions)
  | negation inner =>
      cases inner with
      | none => rfl
      | some inner => exact congrArg (fun text => written "Not" [text]) (text_skeleton inner)

/-- The texts of the skeletons of conditions are the descriptions of the conditions. -/
theorem text_all_skeleton_all (conditions : List (Condition G)) :
    Skeleton.textAll (skeletonAll conditions) = describeAll conditions := by
  cases conditions with
  | nil => rfl
  | cons condition rest =>
      show condition.skeleton.text :: Skeleton.textAll (skeletonAll rest) = _
      rw [text_skeleton condition, text_all_skeleton_all rest]
      rfl

end

end Condition

end BehaviorTree
