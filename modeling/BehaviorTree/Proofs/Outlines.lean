import BehaviorTree.Proofs.Skeletons
import BehaviorTree.Proofs.Subtree
import BehaviorTree.Decimal.Whole
import BehaviorTree.Tree.Outline
import Mathlib.Data.List.Forall2

/-!
# Reading outlines

What the text of an outline says about a tree. The nodes of a tree are listed with their depths
(`Node.levels`), and each entry has its line. A text falls into its lines again
(`Text.split_on_ended`), a line into the depth and the label of a node (`line_injective`), and the
list of labels with depths into the skeleton of the tree, so outlines determine trees as far as
they show them (`outline_determines`).
-/

namespace BehaviorTree

/-! ## Identities and lines -/

/-- A valid identity is written as its number in decimal, after a hash. -/
theorem NodeId.text_digits {id : NodeId} (h : id.isValid = true) :
    id.text.toList = '#' :: Nat.toDigits 10 id.raw := by
  simp [NodeId.text, h, toString, Nat.repr]

/-- The invalid identity is written as a word after a hash. -/
theorem NodeId.text_invalid {id : NodeId} (h : id.isValid = false) :
    id.text.toList = '#' :: "invalid".toList := by
  simp [NodeId.text, h]

/-- The text of an identity has no blank and no line break. -/
theorem NodeId.text_solid (id : NodeId) : ∀ c ∈ id.text.toList, Text.isBlank c = false := by
  intro c hc
  cases hvalid : id.isValid with
  | false =>
      have hsolid : ('#' :: "invalid".toList).all (fun c => !Text.isBlank c) := by decide
      rw [NodeId.text_invalid hvalid] at hc
      simpa using List.all_eq_true.1 hsolid c hc
  | true =>
      rw [NodeId.text_digits hvalid, List.mem_cons] at hc
      rcases hc with rfl | hc
      · decide
      · have hdigit := Decimal.is_digit_of_mem_to_digits hc
        simp only [Decimal.isDigit, Bool.and_eq_true, decide_eq_true_eq, Char.le_def] at hdigit
        have hlow : 48 ≤ c.toNat := hdigit.1
        have hhigh : c.toNat ≤ 57 := hdigit.2
        simp only [Text.isBlank, Bool.or_eq_false_iff, Bool.and_eq_false_iff, beq_eq_false_iff_ne,
          decide_eq_false_iff_not]
        omega

/-- Identities that are written alike are the same. -/
theorem NodeId.text_injective {id id' : NodeId} (h : id.text.toList = id'.text.toList) :
    id = id' := by
  have hdigits : ∀ n, Nat.toDigits 10 n ≠ "invalid".toList := by
    intro n hn
    have hletter : 'i' ∈ Nat.toDigits 10 n := by rw [hn]; decide
    exact absurd (Decimal.is_digit_of_mem_to_digits hletter) (by decide)
  cases hvalid : id.isValid with
  | false =>
      cases hvalid' : id'.isValid with
      | false =>
          simp [isValid] at hvalid hvalid'
          rw [hvalid, hvalid']
      | true =>
          rw [text_invalid hvalid, text_digits hvalid'] at h
          exact absurd (List.cons.inj h).2.symm (hdigits _)
  | true =>
      cases hvalid' : id'.isValid with
      | false =>
          rw [text_digits hvalid, text_invalid hvalid'] at h
          exact absurd (List.cons.inj h).2 (hdigits _)
      | true =>
          rw [text_digits hvalid, text_digits hvalid'] at h
          have hread := congrArg (Decimal.natural? 10) (List.cons.inj h).2
          rw [Decimal.natural?_to_digits, Decimal.natural?_to_digits] at hread
          cases id
          cases id'
          exact congrArg NodeId.mk (Option.some.inj hread)

/-- A text of lines that are all ended falls into these lines, with nothing after the last. -/
theorem Text.split_on_ended {lines : List (List Char)} (h : ∀ line ∈ lines, '\n' ∉ line) :
    (lines.flatMap (· ++ ['\n'])).splitOn '\n' = lines ++ [[]] := by
  have hjoin : ∀ lines : List (List Char),
      lines.flatMap (· ++ ['\n']) = ['\n'].intercalate (lines ++ [[]]) := by
    intro lines
    induction lines with
    | nil => rfl
    | cons line rest ih =>
        rw [List.flatMap_cons, ih]
        cases rest with
        | nil => simp [List.intercalate]
        | cons next more => simp [List.intercalate]
  rw [hjoin]
  refine List.splitOn_intercalate '\n' (fun line hline => ?_) (by simp)
  rcases List.mem_append.1 hline with hline | hline
  · exact h line hline
  · rw [List.mem_singleton.1 hline]
    exact List.not_mem_nil

/-! ## Nodes with their depths -/

variable {G G' : Game}

namespace Node

/-- What an outline shows of a node. -/
structure Label where
  id : NodeId
  typeName : String
  mustComplete : Bool
  gate : Option (Skeleton String)

def label (node : Node G) : Label :=
  ⟨node.id, node.typeName, node.mustComplete, node.gate.map Condition.skeleton⟩

mutual

/-- The labels of a node and of everything below it. -/
def skeleton : Node G → Skeleton Label
  | node@(composite _ _ children) => .mk node.label (skeletonAll children)
  | node@(decorator _ _ child) => .mk node.label (skeletonChild child)
  | node@(timed _ _ _) | node@(action _ _ _ _) => .mk node.label []

/-- The skeletons of several subtrees, in order. -/
def skeletonAll : List (Node G) → List (Skeleton Label)
  | [] => []
  | node :: rest => skeleton node :: skeletonAll rest

/-- The skeleton of a subtree, if there is one. -/
def skeletonChild : Option (Node G) → List (Skeleton Label)
  | none => []
  | some node => [skeleton node]

end

mutual

/-- The node and all nodes below it in preorder, each with its depth. -/
def levels (depth : Nat) : Node G → List (Nat × Node G)
  | node@(composite _ _ children) => (depth, node) :: levelsAll (depth + 1) children
  | node@(decorator _ _ child) => (depth, node) :: levelsChild (depth + 1) child
  | node@(timed _ _ _) | node@(action _ _ _ _) => [(depth, node)]

/-- The nodes of several subtrees, one subtree after the other. -/
def levelsAll (depth : Nat) : List (Node G) → List (Nat × Node G)
  | [] => []
  | node :: rest => levels depth node ++ levelsAll depth rest

/-- The nodes of a subtree, if there is one. -/
def levelsChild (depth : Nat) : Option (Node G) → List (Nat × Node G)
  | none => []
  | some node => levels depth node

end

/-- A node is listed at its depth, and what is below it one level deeper, child by child. -/
theorem levels_eq (depth : Nat) (node : Node G) :
    node.levels depth = (depth, node) :: node.children.flatMap (levels (depth + 1)) := by
  have hall : ∀ children : List (Node G),
      levelsAll (depth + 1) children = children.flatMap (levels (depth + 1)) := by
    intro children
    induction children with
    | nil => rfl
    | cons child rest ih => rw [levelsAll, ih, List.flatMap_cons]
  cases node with
  | composite head kind nodes => rw [levels, hall]; rfl
  | decorator head kind child => cases child <;> simp [levels, levelsChild, children]
  | timed | action => rfl

/-- The skeleton of a node has those of its children below its label. -/
theorem skeleton_eq (node : Node G) :
    node.skeleton = .mk node.label (node.children.map skeleton) := by
  have hall : ∀ children : List (Node G), skeletonAll children = children.map skeleton := by
    intro children
    induction children with
    | nil => rfl
    | cons child rest ih => rw [skeletonAll, ih, List.map_cons]
  cases node with
  | composite head kind nodes => rw [skeleton, hall]; rfl
  | decorator head kind child => cases child <;> rfl
  | timed | action => rfl

/-- The outline of a node is its line and the outlines of its children, one level deeper. -/
theorem outline_eq (depth : Nat) (node : Node G) :
    node.outline depth = node.outlineLine depth :: node.children.flatMap (outline (depth + 1)) := by
  have hall : ∀ children : List (Node G),
      outlineAll (depth + 1) children = children.flatMap (outline (depth + 1)) := by
    intro children
    induction children with
    | nil => rfl
    | cons child rest ih => rw [outlineAll, ih, List.flatMap_cons]
  cases node with
  | composite head kind nodes => rw [outline, hall]; rfl
  | decorator head kind child => cases child <;> simp [outline, outlineChild, children]
  | timed | action => rfl

/-- Every node has its entry, in preorder. -/
theorem levels_preorder (node : Node G) (depth : Nat) :
    (node.levels depth).map Prod.snd = node.preorder := by
  induction node using by_family generalizing depth with
  | inner node _ ih =>
      rw [levels_eq, preorder_eq, List.map_cons, List.map_flatMap]
      exact congrArg _ (List.flatMap_congr fun child hchild => ih child hchild (depth + 1))
  | leaf node hleaf => rw [levels_eq, preorder_eq, children_leaf hleaf]; rfl

/-- The outline has one line for every entry. -/
theorem outline_levels (node : Node G) (depth : Nat) :
    node.outline depth = (node.levels depth).map fun entry => entry.2.outlineLine entry.1 := by
  induction node using by_family generalizing depth with
  | inner node _ ih =>
      rw [levels_eq, outline_eq, List.map_cons, List.map_flatMap]
      exact congrArg _ (List.flatMap_congr fun child hchild => ih child hchild (depth + 1))
  | leaf node hleaf => rw [levels_eq, outline_eq, children_leaf hleaf]; rfl

/-- The labels of the entries are those of the skeleton. -/
theorem skeleton_levels (node : Node G) (depth : Nat) :
    node.skeleton.levels depth = (node.levels depth).map fun entry => (entry.1, entry.2.label) := by
  induction node using by_family generalizing depth with
  | inner node _ ih =>
      rw [levels_eq, skeleton_eq, Skeleton.levels, Skeleton.levels_all_eq, List.flatMap_map,
        List.map_cons, List.map_flatMap]
      exact congrArg _ (List.flatMap_congr fun child hchild => ih child hchild (depth + 1))
  | leaf node hleaf => rw [levels_eq, skeleton_eq, children_leaf hleaf]; rfl

/-! ## The line of a node -/

/-- What a line shows after the identity: whether the node must complete, and its gate. -/
def Label.remarks (mustComplete : Bool) (gate : Option (Skeleton String)) : List Char :=
  (if mustComplete then " [must-complete]".toList else []) ++
    match gate with
    | none => []
    | some s => " if ".toList ++ s.text.toList

/-- What a line shows after its indentation. -/
def Label.written (label : Label) : List Char :=
  label.typeName.toList ++ ' ' :: (label.id.text.toList ++ remarks label.mustComplete label.gate)

/-- Whether the names that a label shows can be told apart. -/
structure Label.Legible (label : Label) : Prop where
  typeName : Skeleton.IsName label.typeName
  gate : ∀ s ∈ label.gate, s.All Skeleton.IsName

/-- The line of an entry. -/
def Label.line (entry : Nat × Label) : List Char :=
  List.replicate (entry.1 * 2) ' ' ++ entry.2.written

/-- The line of a node shows its depth and its label, and nothing else. -/
theorem line_label (depth : Nat) (node : Node G) :
    (node.outlineLine depth).toList = Label.line (depth, node.label) := by
  unfold outlineLine Label.line Label.written Label.remarks label
  cases node.gate with
  | none => cases node.mustComplete <;> simp
  | some condition => cases node.mustComplete <;> simp [Condition.text_skeleton]

namespace Label

/-- An empty text ends whatever stands before it. -/
theorem ends_text_nil : Skeleton.EndsText [] := fun _ hc => absurd hc (by simp)

/-- The two remarks start differently, so it is seen which of them are made. -/
theorem remarks_injective {must must' : Bool} {gate gate' : Option (Skeleton String)}
    (hgate : ∀ s ∈ gate, s.All Skeleton.IsName) (hgate' : ∀ s ∈ gate', s.All Skeleton.IsName)
    (h : remarks must gate = remarks must' gate') : must = must' ∧ gate = gate' := by
  have hgates : ∀ {gate gate' : Option (Skeleton String)}, (∀ s ∈ gate, s.All Skeleton.IsName) →
      (∀ s ∈ gate', s.All Skeleton.IsName) → remarks false gate = remarks false gate' →
      gate = gate' := by
    intro gate gate' hgate hgate' h
    cases gate with
    | none =>
        cases gate' with
        | none => rfl
        | some s => simp [remarks] at h
    | some s =>
        cases gate' with
        | none => simp [remarks] at h
        | some s' =>
            have htext : s.text.toList ++ [] = s'.text.toList ++ [] := by simpa [remarks] using h
            exact congrArg some (Skeleton.text_append_injective (hgate s rfl) (hgate' s' rfl)
              ends_text_nil ends_text_nil htext).1
  cases must <;> cases must'
  · exact ⟨rfl, hgates hgate hgate' h⟩
  · cases gate <;> simp [remarks] at h
  · cases gate' <;> simp [remarks] at h
  · exact ⟨rfl, hgates hgate hgate' (List.append_cancel_left h)⟩

/-- What follows an identity in a line is empty or starts with a blank. -/
theorem remarks_ends (must : Bool) (gate : Option (Skeleton String)) :
    ∀ c ∈ (remarks must gate).head?, ¬ Text.isBlank c = false := by
  cases must <;> cases gate <;> simp [remarks] <;> decide

/-- A label is read off its line: the name ends at the first blank, the identity at the next. -/
theorem written_injective {label label' : Label} (hlabel : label.Legible) (hlabel' : label'.Legible)
    (h : label.written = label'.written) : label = label' := by
  have hblank : ∀ tail : List Char, ∀ c ∈ (' ' :: tail).head?, ¬ Skeleton.InName c := by
    rintro tail c ⟨⟩
    decide
  obtain ⟨hname, hbody⟩ := Text.stretch_injective hlabel.typeName.2 hlabel'.typeName.2
    (hblank _) (hblank _) h
  obtain ⟨hid, hremarks⟩ := Text.stretch_injective label.id.text_solid label'.id.text_solid
    (remarks_ends _ _) (remarks_ends _ _) (List.cons.inj hbody).2
  obtain ⟨hmust, hgate⟩ := remarks_injective hlabel.gate hlabel'.gate hremarks
  cases label
  cases label'
  obtain rfl := String.toList_inj.1 hname
  obtain rfl := NodeId.text_injective hid
  obtain rfl : _ = _ := hmust
  obtain rfl : _ = _ := hgate
  rfl

/-- What is written of a label does not start with a blank. -/
theorem written_head {label : Label} (h : label.Legible) :
    ∀ c ∈ label.written.head?, ¬ c = ' ' := by
  obtain ⟨hsome, hname⟩ := h.typeName
  unfold written
  cases hchars : label.typeName.toList with
  | nil => exact absurd (String.toList_eq_nil_iff.1 hchars) hsome
  | cons d name =>
      rintro c ⟨⟩ rfl
      exact absurd (hname ' ' (hchars ▸ List.mem_cons_self)) (by decide)

/-- A line gives away the depth and the label of its node. -/
theorem line_injective {entry entry' : Nat × Label} (hentry : entry.2.Legible)
    (hentry' : entry'.2.Legible) (h : line entry = line entry') : entry = entry' := by
  obtain ⟨hindent, hwritten⟩ := Text.stretch_injective (p := (· = ' '))
    (fun _ => List.eq_of_mem_replicate) (fun _ => List.eq_of_mem_replicate)
    (written_head hentry) (written_head hentry') h
  have hdepth : entry.1 * 2 = entry'.1 * 2 := by simpa using congrArg List.length hindent
  exact Prod.ext (by omega) (written_injective hentry hentry' hwritten)

/-- A line has no line break of its own. -/
theorem line_unbroken {entry : Nat × Label} (h : entry.2.Legible) : '\n' ∉ line entry := by
  have hname : '\n' ∉ entry.2.typeName.toList := fun hmem =>
    absurd (h.typeName.2 _ hmem) (by decide)
  have hid : '\n' ∉ entry.2.id.text.toList := fun hmem =>
    absurd (entry.2.id.text_solid _ hmem) (by decide)
  have hindent : '\n' ∉ List.replicate (entry.1 * 2) ' ' := fun hmem =>
    absurd (List.eq_of_mem_replicate hmem) (by decide)
  have hremarks : '\n' ∉ remarks entry.2.mustComplete entry.2.gate := by
    unfold remarks
    cases hgate : entry.2.gate with
    | none => cases entry.2.mustComplete <;> decide
    | some s =>
        have htext := Skeleton.text_unbroken (h.gate s hgate)
        cases entry.2.mustComplete <;> simpa using htext
  simp only [line, written, List.mem_append, List.mem_cons, not_or]
  exact ⟨hindent, hname, by decide, hid, hremarks⟩

/-- Equal lines come from equal entries, one by one. -/
theorem lines_injective {entries entries' : List (Nat × Label)}
    (hentries : ∀ entry ∈ entries, entry.2.Legible)
    (hentries' : ∀ entry ∈ entries', entry.2.Legible)
    (h : entries.map line = entries'.map line) : entries = entries' := by
  induction entries generalizing entries' with
  | nil => exact (List.map_eq_nil_iff.1 h.symm).symm
  | cons entry rest ih =>
      cases entries' with
      | nil => exact absurd h (by simp)
      | cons entry' rest' =>
          rw [List.map_cons, List.map_cons, List.cons.injEq] at h
          obtain rfl := line_injective (hentries _ List.mem_cons_self)
            (hentries' _ List.mem_cons_self) h.1
          obtain rfl := ih (fun other hother => hentries other (List.mem_cons_of_mem _ hother))
            (fun other hother => hentries' other (List.mem_cons_of_mem _ hother)) h.2
          rfl

end Label

/-- Whether a line is indented by twice a depth and goes on with the kind of a node and its
identity. -/
structure HasLine (depth : Nat) (node : Node G) (line : List Char) : Prop where
  indented : line.takeWhile (· == ' ') = List.replicate (2 * depth) ' '
  shows : node.typeName.toList ++ ' ' :: node.id.text.toList <+: line.drop (2 * depth)

/-- A text of this form is a line of the node. -/
theorem has_line_of_eq {depth : Nat} {node : Node G} {line rest : List Char}
    (hname : Skeleton.IsName node.typeName)
    (h : line = List.replicate (2 * depth) ' ' ++
      (node.typeName.toList ++ ' ' :: (node.id.text.toList ++ rest))) :
    node.HasLine depth line := by
  obtain ⟨hsome, hchars⟩ := hname
  have hhead : (node.typeName.toList ++ ' ' :: (node.id.text.toList ++ rest)).takeWhile
      (· == ' ') = [] := by
    cases htype : node.typeName.toList with
    | nil => exact absurd (String.toList_eq_nil_iff.1 htype) hsome
    | cons c name =>
        have hc : c ≠ ' ' := by
          rintro rfl
          exact absurd (hchars ' ' (htype ▸ List.mem_cons_self)) (by decide)
        simp [hc]
  refine ⟨?_, ?_⟩
  · rw [h, List.takeWhile_append_of_pos (by simp), hhead, List.append_nil]
  · rw [h, List.drop_left' (by simp)]
    exact ⟨rest, by simp⟩

end Node

/-! ## Whole outlines -/

namespace Tree

/-- Whether an outline can be read: its title keeps to one line, and the names of nodes and
conditions can be told from what stands around them. -/
structure Legible (tree : Tree G) : Prop where
  name : '\n' ∉ tree.name.toList
  label : ∀ node ∈ tree.toNode.preorder, node.label.Legible

/-- What an outline shows below the title, entry by entry. -/
def entries (tree : Tree G) : List (Nat × Node.Label) :=
  Skeleton.levelsAll 1 (tree.child.toList.map Node.skeleton)

/-- The nodes of a tree with their depths are the top and what is below it. -/
theorem levels_to_node (tree : Tree G) :
    tree.toNode.levels 0 = (0, tree.toNode) :: tree.child.toList.flatMap (Node.levels 1) :=
  Node.levels_eq 0 tree.toNode

/-- What is listed below the top of a tree is a node of the tree. -/
theorem mem_preorder_of_entry {tree : Tree G} {entry : Nat × Node G}
    (h : entry ∈ tree.child.toList.flatMap (Node.levels 1)) : entry.2 ∈ tree.toNode.preorder := by
  rw [← tree.toNode.levels_preorder 0, levels_to_node]
  exact List.mem_map_of_mem (List.mem_cons_of_mem _ h)

/-- The entries of an outline are the labels of the nodes below the top, with their depths. -/
theorem entries_eq (tree : Tree G) :
    tree.entries = (tree.child.toList.flatMap (Node.levels 1)).map fun entry =>
      (entry.1, entry.2.label) := by
  rw [entries, Skeleton.levels_all_eq, List.flatMap_map, List.map_flatMap]
  exact List.flatMap_congr fun child _ => child.skeleton_levels 1

/-- An outline is its title and the lines of its entries. -/
theorem outline_to_list (tree : Tree G) :
    tree.outline.map String.toList = tree.titleLine.toList :: tree.entries.map Node.Label.line := by
  have hbelow : Node.outlineChild 1 tree.child = tree.child.toList.flatMap (Node.outline 1) := by
    cases tree.child <;> simp [Node.outlineChild]
  rw [outline, List.map_cons, hbelow, entries_eq, List.map_map, List.map_flatMap, List.map_flatMap]
  refine congrArg _ (List.flatMap_congr fun child _ => ?_)
  rw [Node.outline_levels, List.map_map]
  exact List.map_congr_left fun entry _ => Node.line_label entry.1 entry.2

/-- The labels in a legible tree are legible. -/
theorem Legible.entries {tree : Tree G} (h : tree.Legible) :
    ∀ entry ∈ tree.entries, entry.2.Legible := by
  intro entry hentry
  rw [entries_eq, List.mem_map] at hentry
  obtain ⟨entry, hentry, rfl⟩ := hentry
  exact h.label entry.2 (mem_preorder_of_entry hentry)

/-- The title of an outline shows the identity and the name of the tree. -/
theorem title_line_to_list (tree : Tree G) :
    tree.titleLine.toList =
      "Root ".toList ++ (tree.id.text.toList ++ " (".toList ++ (tree.name.toList ++ [')'])) := by
  simp [titleLine]

/-- The title ends with the name in parentheses, so a name may be anything that stays on the
line. -/
theorem title_line_injective {tree : Tree G} {other : Tree G'}
    (h : tree.titleLine.toList = other.titleLine.toList) :
    tree.name = other.name ∧ tree.id = other.id := by
  rw [title_line_to_list, title_line_to_list] at h
  have hbody := List.append_cancel_left h
  rw [List.append_assoc, List.append_assoc] at hbody
  have hblank : ∀ tail : List Char, ∀ c ∈ (" (".toList ++ tail).head?,
      ¬ Text.isBlank c = false := by
    rintro tail c ⟨⟩
    decide
  obtain ⟨hid, hname⟩ := Text.stretch_injective tree.id.text_solid other.id.text_solid
    (hblank _) (hblank _) hbody
  exact ⟨String.toList_inj.1 (List.append_cancel_right (List.append_cancel_left hname)),
    NodeId.text_injective hid⟩

/-- A text that shows a legible tree falls into the lines of its outline. -/
theorem split_on_render {tree : Tree G} (h : tree.Legible) :
    tree.render.toList.splitOn '\n' =
      (tree.titleLine.toList :: tree.entries.map Node.Label.line) ++ [[]] := by
  have hrender : tree.render.toList =
      (tree.outline.map String.toList).flatMap (· ++ ['\n']) := by
    simp [render, String.toList_join, List.flatMap_map]
  rw [hrender, outline_to_list]
  refine Text.split_on_ended fun line hline => ?_
  rcases List.mem_cons.1 hline with rfl | hline
  · have hid : '\n' ∉ tree.id.text.toList := fun hmem =>
      absurd (tree.id.text_solid _ hmem) (by decide)
    rw [title_line_to_list]
    simpa [hid] using h.name
  · obtain ⟨entry, hentry, rfl⟩ := List.mem_map.1 hline
    exact Node.Label.line_unbroken (h.entries entry hentry)

/-- The lines of an outline are those of the nodes, one by one. -/
theorem has_line_levels {tree : Tree G} (h : tree.Legible) :
    List.Forall₂ (fun entry line => entry.2.HasLine entry.1 line) (tree.toNode.levels 0)
      (tree.titleLine.toList :: tree.entries.map Node.Label.line) := by
  have hkind : Skeleton.IsName "Root" := by decide
  have htitle : tree.titleLine.toList = List.replicate (2 * 0) ' ' ++
      (tree.toNode.typeName.toList ++ ' ' :: (tree.toNode.id.text.toList ++
        (" (".toList ++ (tree.name.toList ++ [')'])))) := by
    rw [title_line_to_list]
    simp [toNode, Node.typeName, DecoratorKind.typeName, Node.id, Node.head, id]
  rw [levels_to_node, entries_eq, List.map_map]
  refine .cons (Node.has_line_of_eq hkind htitle)
    (List.forall₂_map_right_iff.2 (List.forall₂_same.2 fun entry hentry => ?_))
  have hline : Node.Label.line (entry.1, entry.2.label) = List.replicate (2 * entry.1) ' ' ++
      (entry.2.typeName.toList ++ ' ' :: (entry.2.id.text.toList ++
        Node.Label.remarks entry.2.mustComplete entry.2.label.gate)) := by
    rw [Nat.mul_comm]
    rfl
  exact Node.has_line_of_eq (h.label entry.2 (mem_preorder_of_entry hentry)).typeName hline

end Tree

/-- The outline determines the tree as far as it shows it, and its lines are those of the nodes in
preorder. -/
theorem outline_determines {tree : Tree G} {other : Tree G'} (h : tree.Legible)
    (hother : other.Legible) :
    (tree.render = other.render → tree.name = other.name ∧ tree.id = other.id ∧
      tree.child.map Node.skeleton = other.child.map Node.skeleton) ∧
    ∃ lines, tree.render.toList.splitOn '\n' = lines ++ [[]] ∧ lines.length = tree.count ∧
      (tree.toNode.levels 0).map Prod.snd = tree.toNode.preorder ∧
      List.Forall₂ (fun entry line => entry.2.HasLine entry.1 line) (tree.toNode.levels 0)
        lines := by
  constructor
  · intro heq
    have hlines : tree.titleLine.toList :: tree.entries.map Node.Label.line =
        other.titleLine.toList :: other.entries.map Node.Label.line := by
      have hsplit := congrArg (fun text => text.toList.splitOn '\n') heq
      simp only [tree.split_on_render h, Tree.split_on_render hother] at hsplit
      exact List.append_cancel_right hsplit
    obtain ⟨htitle, hbelow⟩ := List.cons.inj hlines
    obtain ⟨hname, hid⟩ := Tree.title_line_injective htitle
    have hentries : tree.entries ++ [] = other.entries ++ [] := by
      rw [Node.Label.lines_injective h.entries hother.entries hbelow]
    have hends : Skeleton.EndsAbove 1 ([] : List (Nat × Node.Label)) := by
      intro entry hentry
      exact absurd hentry (by simp)
    have hskeletons := (Skeleton.levels_all_append_injective hends hends hentries).1
    exact ⟨hname, hid, by simpa using congrArg List.head? hskeletons⟩
  · have hlines := tree.has_line_levels h
    refine ⟨_, tree.split_on_render h, ?_, tree.toNode.levels_preorder 0, hlines⟩
    rw [← hlines.length_eq, Tree.count, Node.count, ← tree.toNode.levels_preorder 0,
      List.length_map]

/-- A game whose leaves, conditions and filters are numbers. -/
def Game.numbered : Game := ⟨Nat, Nat, Nat, Nat, fun _ => Nat⟩

/-- A tree with a must-complete leaf and with nested conditions. Its text does not show how long the
leaf takes, how often it is executed and how many entities the filter keeps. -/
def lookoutTree (duration bound : Nat) : Tree Game.numbered where
  head := ⟨⟨4⟩, some .never⟩
  name := "watch (by night)"
  child := some (.decorator ⟨⟨3⟩, some (.conjunction [.always,
      .negation (some (.selection (some (.first bound)))), .disjunction []])⟩ (.limit bound)
    (some (.composite ⟨⟨2⟩, none⟩ .sequence
      [.timed ⟨⟨0⟩, some (.game "Dark" bound)⟩ duration true,
        .action ⟨⟨1⟩, none⟩ "Shout" false duration])))

/-- The outline of the lookout's tree can be read. -/
theorem lookout_tree_legible (duration bound : Nat) : (lookoutTree duration bound).Legible where
  name := by show '\n' ∉ "watch (by night)".toList; decide
  label node hnode := by
    have hkinds : ∀ name ∈ ["Root", "Limit", "Sequence", "Timed", "Shout"],
        Skeleton.IsName name := by decide
    simp only [lookoutTree, Tree.toNode, Node.preorder, Node.preorderAll, Node.preorderChild,
      List.mem_cons, List.mem_append, List.not_mem_nil, or_false] at hnode
    rcases hnode with rfl | rfl | rfl | rfl | rfl <;>
      refine ⟨hkinds _ (by simp [Node.label, Node.typeName, DecoratorKind.typeName,
        CompositeKind.typeName]), ?_⟩ <;>
      simp [Node.label, Node.gate, Node.head, Condition.skeleton, Condition.skeletonAll,
        Condition.skeletonInner, Skeleton.all_mk, Condition.typeName] <;>
      decide

/-- Two trees with one text, and what follows from it. -/
theorem outline_determines_watch :
    (lookoutTree 3 2).render = (lookoutTree 8 5).render ∧
      (lookoutTree 3 2).child.map Node.skeleton = (lookoutTree 8 5).child.map Node.skeleton ∧
      ∃ lines, (lookoutTree 3 2).render.toList.splitOn '\n' = lines ++ [[]] ∧ lines.length = 5 := by
  have htext : (lookoutTree 3 2).render = (lookoutTree 8 5).render := rfl
  have hdetermines := outline_determines (lookout_tree_legible 3 2) (lookout_tree_legible 8 5)
  obtain ⟨lines, hlines, hcount, -⟩ := hdetermines.2
  exact ⟨htext, (hdetermines.1 htext).2.2, lines, hlines, hcount⟩

end BehaviorTree
