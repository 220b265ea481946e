import Hotspot.Analysis.Json
import Hotspot.Proofs.Json.Printing
import Hotspot.Proofs.Json.Records

/-!
The ways to write a syntax tree down. A form says which JSON values stand for a
part of the tree, and leaves open all that the analyser may choose: the order of
members, what else an object holds, and whether a part that has its default is
written at all. Together with the grammar, which leaves open the text of a
value, the forms cover every file that holds the tree.

All of them are read as the same analysis, but for two things that the grammar
allows and the reader refuses. The name of a member may escape half of a
surrogate pair, and a numeral may make up for a great exponent by as many digits
of its fraction. The forms say which names and which numerals they take.
-/

namespace Hotspot

/-- What may stand for the names of members and for numbers. -/
structure Spelling where
  name : Option String → Prop
  numeral : Numeral → Prop

/-- Names as the grammar has them, texts or not, and all short numerals. -/
def Spelling.wellFormed : Spelling := ⟨fun _ => True, Numeral.Short⟩

/-- Names that are texts, and moderate numerals. -/
def Spelling.readable : Spelling := ⟨fun name => name.isSome = true, Numeral.Moderate⟩

/-- The members whose names are texts. -/
def Json.named (members : List (Option String × Json)) : List (String × Json) :=
  members.filterMap fun (name, value) => name.map fun name => (name, value)

/-- An object, by its members whose names are texts. -/
inductive ObjectForm (spelling : Spelling) (members : List (String × Json)) : Json → Prop where
  | object {all : List (Option String × Json)} (names : ∀ m ∈ all, spelling.name m.1)
      (h : Json.named all = members) : ObjectForm spelling members (.object all)

/-- A number stands as a numeral that spells a number nearest to it. -/
inductive NumberForm (spelling : Spelling) (x : Binary64) : Json → Prop where
  | number {n : Numeral} (hn : spelling.numeral n) (hx : n.nearest = x) :
      NumberForm spelling x (.number n)

namespace TreeNode

/-- Zero may stand as null. -/
inductive ComplexityForm (spelling : Spelling) (x : Binary64) : Json → Prop where
  | number {v : Json} (h : NumberForm spelling x v) : ComplexityForm spelling x v
  | null (h : x = 0) : ComplexityForm spelling x .null

/-- A span stands as an object with all four coordinates. -/
inductive SpanForm (spelling : Spelling) (span : Span) : Json → Prop where
  | object {v : Json} {members : List (String × Json)} (shape : ObjectForm spelling members v)
      (once : Once ["start_row", "start_column", "end_row", "end_column"]
        (members.map Prod.fst))
      (startRow : Member members "start_row" (· = .ofNat span.start.line.toNat) False)
      (startColumn : Member members "start_column" (· = .ofNat span.start.character.toNat) False)
      (endRow : Member members "end_row" (· = .ofNat span.stop.line.toNat) False)
      (endColumn : Member members "end_column" (· = .ofNat span.stop.character.toNat) False) :
      SpanForm spelling span v

/-- An index stands as a number, and none as null. -/
inductive IndexForm : Option Nat → Json → Prop where
  | index {i : Nat} (h : i < 2 ^ 64) : IndexForm (some i) (.ofNat i)
  | null : IndexForm none .null

/-- A parent stands as an object with its index, and none as null, or as an
object without an index. -/
inductive ParentForm (spelling : Spelling) (index : Option Nat) : Json → Prop where
  | object {v : Json} {members : List (String × Json)} (shape : ObjectForm spelling members v)
      (once : Once ["index"] (members.map Prod.fst))
      (member : Member members "index" (IndexForm index) (index = none)) :
      ParentForm spelling index v
  | null (h : index = none) : ParentForm spelling index .null

/-- A node stands as an object. Parts that have their default may be left out:
zero for a complexity, the start of the file for a span. -/
inductive Form (spelling : Spelling) (node : TreeNode) : Json → Prop where
  | object {v : Json} {members : List (String × Json)} (shape : ObjectForm spelling members v)
      (once : Once ["complexity", "local_complexity", "name", "syntax_span", "parent"]
        (members.map Prod.fst))
      (complexity : Member members "complexity" (ComplexityForm spelling node.complexity)
        (node.complexity = 0))
      (localComplexity : Member members "local_complexity"
        (ComplexityForm spelling node.localComplexity) (node.localComplexity = 0))
      (name : Member members "name" (· = .ofOption .ofString node.name) (node.name = none))
      (span : Member members "syntax_span" (SpanForm spelling node.span)
        (node.span = .ofCoordinates 0 0 0 0))
      (parent : Member members "parent" (ParentForm spelling node.parentIndex)
        (node.parentIndex = none)) :
      Form spelling node v

end TreeNode

namespace SyntaxTree

/-- Nodes stand in an array, in their order. -/
inductive NodesForm (spelling : Spelling) (nodes : List TreeNode) : Json → Prop where
  | array {items : List Json} (h : List.Forall₂ (TreeNode.Form spelling) nodes items) :
      NodesForm spelling nodes (.array items)

inductive Form (spelling : Spelling) (tree : SyntaxTree) : Json → Prop where
  | object {v : Json} {members : List (String × Json)} (shape : ObjectForm spelling members v)
      (once : Once ["nodes"] (members.map Prod.fst))
      (nodes : Member members "nodes" (NodesForm spelling tree.nodes) (tree.nodes = [])) :
      Form spelling tree v

/-- A tree that is not there stands as null. -/
inductive OptionForm (spelling : Spelling) : Option SyntaxTree → Json → Prop where
  | tree {tree : SyntaxTree} {v : Json} (h : Form spelling tree v) :
      OptionForm spelling (some tree) v
  | null : OptionForm spelling none .null

end SyntaxTree

/-- An analysis file stands as an object with the tree, if there is one. -/
inductive Analysis.FileForm (spelling : Spelling) (tree : Option SyntaxTree) : Json → Prop where
  | object {v : Json} {members : List (String × Json)} (shape : ObjectForm spelling members v)
      (once : Once ["tree"] (members.map Prod.fst))
      (member : Member members "tree" (SyntaxTree.OptionForm spelling tree) (tree = none)) :
      Analysis.FileForm spelling tree v

variable {x : Binary64} {v : Json} {members : List (String × Json)} {spelling : Spelling}

theorem Json.named_record (members : List (String × Json)) :
    named (members.map fun (name, value) => (some name, value)) = members := by
  simp [named, List.filterMap_map]

/-- Where all names are texts, an object has no other members. -/
theorem Json.record_named {all : List (Option String × Json)} (h : ∀ m ∈ all, m.1.isSome = true) :
    record (named all) = .object all := by
  rw [record]
  congr 1
  induction all with
  | nil => rfl
  | cons m all ih =>
    obtain ⟨hm, hall⟩ := List.forall_mem_cons.mp h
    obtain ⟨name, value⟩ := m
    obtain ⟨name, rfl⟩ := Option.isSome_iff_exists.mp hm
    exact congrArg _ (ih hall)

theorem Json.mem_named {all : List (Option String × Json)} {name : String} {d : Json} :
    (name, d) ∈ named all ↔ (some name, d) ∈ all := by
  simp [named]

theorem ObjectForm.record (h : ∀ m ∈ members, spelling.name (some m.1)) :
    ObjectForm spelling members (.record members) := by
  refine .object ?_ (Json.named_record members)
  rw [List.forall_mem_map]
  exact h

theorem ObjectForm.eq_record (h : ObjectForm .readable members v) : v = .record members := by
  obtain @⟨all, names, rfl⟩ := h
  exact (Json.record_named names).symm

namespace TreeNode

theorem readSpan_of_form {span : Span} (h : SpanForm .readable span v) (hsound : v.sound = true) :
    readSpan v = .ok span := by
  cases h with
  | object shape once startRow startColumn endRow endColumn =>
    obtain rfl := shape.eq_record
    refine Eq.trans (Json.record_of_members ?values hsound (by decide) once ?read) ?result
    case values =>
      exact (span.start.line, span.start.character, span.stop.line, span.stop.character, ())
    case result => rfl
    exact ⟨startRow.mono (fun d _ hd => hd ▸ Json.word32_ofNat _) False.elim,
      startColumn.mono (fun d _ hd => hd ▸ Json.word32_ofNat _) False.elim,
      endRow.mono (fun d _ hd => hd ▸ Json.word32_ofNat _) False.elim,
      endColumn.mono (fun d _ hd => hd ▸ Json.word32_ofNat _) False.elim, trivial⟩

theorem readComplexity_of_form (h : ComplexityForm .readable x v) : readComplexity v = .ok x := by
  cases h with
  | number h =>
    obtain ⟨hn, rfl⟩ := h
    rw [readComplexity, Json.optional_number hn]
    rfl
  | null h =>
    subst h
    rfl

theorem readIndex_of_form {index : Option Nat} (h : IndexForm index v) :
    Reader.optional Reader.size v = .ok index := by
  cases h with
  | index h => exact Json.optional_size h
  | null => rfl

/-- A parent without an index is as good as none. -/
theorem readParent_of_form {index : Option Nat} (h : ParentForm .readable index v)
    (hsound : v.sound = true) :
    ∃ parent, Option.join parent = index ∧ Reader.optional readParent v = .ok parent := by
  cases h with
  | object shape once member =>
    obtain rfl := shape.eq_record
    refine ⟨some index, rfl, Json.optional_record ?_⟩
    refine Eq.trans (Json.record_of_members ?values hsound (by decide) once ?read) ?result
    case values => exact (index, ())
    case result => rfl
    exact ⟨member.mono (fun d _ hd => readIndex_of_form hd) (fun h => h ▸ rfl), trivial⟩
  | null h => exact ⟨none, h.symm, rfl⟩

theorem read_of_form {node : TreeNode} (h : Form .readable node v) (hsound : v.sound = true) :
    TreeNode.read v = .ok node := by
  cases h with
  | object shape once complexity localComplexity name span parent =>
    obtain rfl := shape.eq_record
    have hsounds := Json.sound_of_mem_members hsound
    obtain ⟨recorded, hindex, hparent⟩ := parent.exists_read (some none) once (by decide)
      (fun d hd hform => readParent_of_form hform (hsounds _ hd))
      (fun h => ⟨none, h.symm, rfl⟩)
    refine Eq.trans (Json.record_of_members ?values hsound (by decide) once ?read) ?result
    case values =>
      exact (node.complexity, node.localComplexity, node.name, node.span, recorded, ())
    case result =>
      exact congrArg (fun index => Except.ok { node with parentIndex := index }) hindex
    exact ⟨complexity.mono (fun d _ hd => readComplexity_of_form hd) (fun h => h ▸ rfl),
      localComplexity.mono (fun d _ hd => readComplexity_of_form hd) (fun h => h ▸ rfl),
      name.mono (fun d _ hd => hd ▸ Json.optional_string _) (fun h => h ▸ rfl),
      span.mono (fun d hd hform => readSpan_of_form hform (hsounds _ hd)) (fun h => h ▸ rfl),
      hparent, trivial⟩

theorem readAll_of_forms {nodes : List TreeNode} {items : List Json}
    (h : List.Forall₂ (Form .readable) nodes items) (hsound : ∀ item ∈ items, item.sound = true) :
    List.Forall₂ (fun node item => TreeNode.read item = .ok node) nodes items := by
  induction h with
  | nil => exact .nil
  | cons hnode _ ih =>
    obtain ⟨hitem, hitems⟩ := List.forall_mem_cons.mp hsound
    exact .cons (read_of_form hnode hitem) (ih hitems)

end TreeNode

namespace SyntaxTree

theorem readNodes_of_form {nodes : List TreeNode} (h : NodesForm .readable nodes v)
    (hsound : v.sound = true) : Reader.list TreeNode.read v = .ok nodes := by
  cases h with
  | array h =>
    exact Json.list_of_forall (TreeNode.readAll_of_forms h (Json.sound_of_mem_items hsound))

theorem read_of_form {tree : SyntaxTree} (h : Form .readable tree v) (hsound : v.sound = true) :
    SyntaxTree.read v = .ok tree := by
  cases h with
  | object shape once nodes =>
    obtain rfl := shape.eq_record
    refine Eq.trans (Json.record_of_members ?values hsound (by decide) once ?read) ?result
    case values => exact (tree.nodes, ())
    case result => rfl
    exact ⟨nodes.mono (fun d hd hform =>
      readNodes_of_form hform (Json.sound_of_mem_members hsound _ hd)) (fun h => h ▸ rfl), trivial⟩

end SyntaxTree

namespace Analysis

end Analysis

end Hotspot
