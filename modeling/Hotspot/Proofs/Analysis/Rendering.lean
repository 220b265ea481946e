import Hotspot.Proofs.Analysis.Forms
import Hotspot.Proofs.Json.Doubles
import Hotspot.Proofs.Schema.Origin

/-!
Which renderings of a syntax tree are read. Those with readable names and
numerals are read as the analysis of the tree. A form that is read at all has
to be one of these, since a record is read as a whole; so all the others are
refused, and none is read as a different analysis.
-/

namespace Hotspot

variable {x : Binary64} {v : Json} {members : List (String × Json)} {spelling : Spelling}

namespace ObjectForm

variable {α : Type} {fs : List (Field Json)} {build : Values fs → α} {name : String} {a : α}

/-- The names of an object that is read as a record are texts. -/
theorem readable_of_record (h : ObjectForm spelling members v) (hnames : (fieldNames fs).Nodup)
    (hread : Reader.record name fs build v = .ok a) : ObjectForm .readable members v := by
  obtain @⟨all, names, hnamed⟩ := h
  refine .object ?_ hnamed
  intro m hm
  obtain ⟨name, hname, -⟩ := Reader.members_of_record rfl hnames hread m hm
  exact Option.isSome_iff_exists.mpr ⟨name, hname⟩

/-- Each member that a field asks for is read. -/
theorem exists_read (h : ObjectForm spelling members v) (hnames : (fieldNames fs).Nodup)
    (hread : Reader.record name fs build v = .ok a) {f : Field Json} (hf : f ∈ fs) {d : Json}
    (hd : (f.name, d) ∈ members) : ∃ value, f.read d = .ok value := by
  obtain @⟨all, names, rfl⟩ := h
  obtain ⟨_, hname, hfields⟩ :=
    Reader.members_of_record rfl hnames hread _ (Json.mem_named.mp hd)
  exact hfields f hf (Option.some.inj hname)

/-- A member stays of the forms that its field reads. -/
theorem member (h : ObjectForm spelling members v) (hnames : (fieldNames fs).Nodup)
    (hread : Reader.record name fs build v = .ok a) {f : Field Json} (hf : f ∈ fs)
    {form form' : Json → Prop} {isDefault : Prop}
    (hmember : Member members f.name form isDefault)
    (hform : ∀ d value, form d → f.read d = .ok value → form' d) :
    Member members f.name form' isDefault := by
  refine hmember.mono ?_ id
  intro d hd hd'
  obtain ⟨value, hvalue⟩ := h.exists_read hnames hread hf hd
  exact hform d value hd' hvalue

/-- An object is not null, so it is read where it may be missing. -/
theorem exists_of_optional {r : Reader Json α} {o : Option α} (h : ObjectForm spelling members v)
    (hread : Reader.optional r v = .ok o) : ∃ a, r v = .ok a := by
  obtain @⟨all, names, rfl⟩ := h
  cases hr : r (.object all) with
  | ok a => exact ⟨a, rfl⟩
  | error fault =>
    simp only [Reader.optional, Document.view, Json.view, bind, Except.bind, hr] at hread
    cases hread

end ObjectForm

theorem Json.exists_of_list {α : Type} {r : Reader Json α} {items : List Json} {as : List α}
    (h : Reader.list r (.array items) = .ok as) : ∀ item ∈ items, ∃ a, r item = .ok a :=
  exists_of_mapM h

namespace TreeNode

/-- A short numeral that is read is a moderate one. -/
theorem ComplexityForm.readable {read : Binary64} (h : ComplexityForm .wellFormed x v)
    (hread : readComplexity v = .ok read) : ComplexityForm .readable x v := by
  cases h with
  | null h => exact .null h
  | number h =>
    obtain @⟨n, hn, hx⟩ := h
    refine .number (.number ?_ hx)
    by_contra hnot
    have hvalue := Json.numberValue?_of_not_moderate hn hnot
    simp only [readComplexity, Reader.optional, Document.view, Json.view, hvalue, bind,
      Except.bind] at hread
    cases hread

theorem SpanForm.readable {span read : Span} (h : SpanForm .wellFormed span v)
    (hread : readSpan v = .ok read) : SpanForm .readable span v := by
  cases h with
  | object shape once startRow startColumn endRow endColumn =>
    exact .object (shape.readable_of_record (by decide) hread) once startRow startColumn endRow
      endColumn

theorem ParentForm.readable {index : Option Nat} {read : Option (Option Nat)}
    (h : ParentForm .wellFormed index v) (hread : Reader.optional readParent v = .ok read) :
    ParentForm .readable index v := by
  cases h with
  | null h => exact .null h
  | object shape once member =>
    obtain ⟨parent, hparent⟩ := shape.exists_of_optional hread
    exact .object (shape.readable_of_record (by decide) hparent) once member

theorem Form.readable {node read : TreeNode} (h : Form .wellFormed node v)
    (hread : TreeNode.read v = .ok read) : Form .readable node v := by
  cases h with
  | object shape once complexity localComplexity name span parent =>
    refine .object (shape.readable_of_record (by decide) hread) once ?complexity
      ?localComplexity name ?span ?parent
    case complexity =>
      exact shape.member (by decide) hread (.head _) complexity fun _ _ => ComplexityForm.readable
    case localComplexity =>
      exact shape.member (by decide) hread (.tail _ (.head _)) localComplexity fun _ _ =>
        ComplexityForm.readable
    case span =>
      exact shape.member (by decide) hread (.tail _ (.tail _ (.tail _ (.head _)))) span fun _ _ =>
        SpanForm.readable
    case parent =>
      exact shape.member (by decide) hread (.tail _ (.tail _ (.tail _ (.tail _ (.head _))))) parent
        fun _ _ => ParentForm.readable

theorem Form.readable_of_items {nodes : List TreeNode} {items : List Json}
    (h : List.Forall₂ (Form .wellFormed) nodes items)
    (hread : ∀ item ∈ items, ∃ node, TreeNode.read item = .ok node) :
    List.Forall₂ (Form .readable) nodes items := by
  induction h with
  | nil => exact .nil
  | cons hnode _ ih =>
    obtain ⟨⟨node, hitem⟩, hitems⟩ := List.forall_mem_cons.mp hread
    exact .cons (hnode.readable hitem) (ih hitems)

end TreeNode

namespace SyntaxTree

theorem NodesForm.readable {nodes read : List TreeNode} (h : NodesForm .wellFormed nodes v)
    (hread : Reader.list TreeNode.read v = .ok read) : NodesForm .readable nodes v := by
  cases h with
  | array h => exact .array (TreeNode.Form.readable_of_items h (Json.exists_of_list hread))

theorem Form.readable {tree read : SyntaxTree} (h : Form .wellFormed tree v)
    (hread : SyntaxTree.read v = .ok read) : Form .readable tree v := by
  cases h with
  | object shape once nodes =>
    exact .object (shape.readable_of_record (by decide) hread) once
      (shape.member (by decide) hread (.head _) nodes fun _ _ => NodesForm.readable)

theorem OptionForm.readable {tree read : Option SyntaxTree} (h : OptionForm .wellFormed tree v)
    (hread : Reader.optional SyntaxTree.read v = .ok read) : OptionForm .readable tree v := by
  cases h with
  | null => exact .null
  | tree h =>
    obtain ⟨tree, htree⟩ : ∃ tree, SyntaxTree.read v = .ok tree := by
      cases h with
      | object shape _ _ => exact shape.exists_of_optional hread
    exact .tree (h.readable htree)

end SyntaxTree

namespace Analysis

variable {tree found : Option SyntaxTree} {text : String}

theorem FileForm.readable (h : FileForm .wellFormed tree v) (hread : readFile v = .ok found) :
    FileForm .readable tree v := by
  cases h with
  | object shape once member =>
    exact .object (shape.readable_of_record (by decide) hread) once
      (shape.member (by decide) hread (.head _) member fun _ _ => SyntaxTree.OptionForm.readable)

section

variable {zeros : Nat} (htexts : ∀ name, spelling.name (some name))
include htexts

end

end Analysis

end Hotspot
