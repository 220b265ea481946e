import Hotspot.Proofs.Analysis.Hundredths
import Hotspot.Proofs.Command.Highlight
import Hotspot.Proofs.Highlight.Report
import Hotspot.Proofs.Json.Finite
import Hotspot.Proofs.Schema.Origin

/-!
The total of an analysis, from the text of the analysis file to the output of a
highlight command. The complexities in a file are finite, and the total is that
of the first node in hundredths. So the output has a number for the total,
except where the complexity is so great that a hundred times it overflows: the
total is infinite then, and the output has null for it.
-/

namespace Hotspot

open Binary64 (InHundredths overflowBound)

variable {v : Json} {text : String}

namespace TreeNode

variable {node : TreeNode} {x : Binary64}

theorem isFinite_of_readComplexity (h : readComplexity v = .ok x) : x.isFinite = true := by
  unfold readComplexity at h
  cases hread : Reader.optional Reader.float v with
  | error fault =>
    rw [hread] at h
    cases h
  | ok number =>
    rw [hread] at h
    cases h
    cases number with
    | none => exact Binary64.isFinite_zero
    | some x => exact Json.isFinite_of_float (Reader.of_optional hread)

theorem isFinite_of_yields {name : String}
    (h : (Field.withDefault name (readComplexity : Reader Json _) 0).Yields x) :
    x.isFinite = true := by
  cases h with
  | read h => exact isFinite_of_readComplexity h
  | absent h =>
    cases h
    exact Binary64.isFinite_zero
  | omitted h =>
    cases h
    exact Binary64.isFinite_zero

/-- Both measurements of the node are finite. -/
structure Finite (node : TreeNode) : Prop where
  complexity : node.complexity.isFinite = true
  localComplexity : node.localComplexity.isFinite = true

theorem finite_of_read (h : TreeNode.read v = .ok node) : node.Finite := by
  obtain ⟨values, hvalues, rfl⟩ := Reader.exists_of_record h
  obtain ⟨hcomplexity, hlocal, -⟩ := hvalues
  exact ⟨isFinite_of_yields hcomplexity, isFinite_of_yields hlocal⟩

end TreeNode

theorem SyntaxTree.finite_of_read {tree : SyntaxTree} (h : SyntaxTree.read v = .ok tree) :
    ∀ node ∈ tree.nodes, node.Finite := by
  obtain ⟨⟨nodes, _⟩, ⟨hnodes, -⟩, rfl⟩ := Reader.exists_of_record h
  intro node hnode
  cases hnodes with
  | read h =>
    obtain ⟨item, hitem⟩ := Reader.exists_of_mem_list h hnode
    exact TreeNode.finite_of_read hitem
  | absent h =>
    cases h
    cases hnode
  | omitted h =>
    cases h
    cases hnode

namespace Analysis

variable {tree : SyntaxTree}

theorem finite_of_readFile (h : readFile v = .ok (some tree)) :
    ∀ node ∈ tree.nodes, node.Finite := by
  obtain ⟨⟨found, _⟩, ⟨htree, -⟩, hfound⟩ := Reader.exists_of_record h
  cases hfound
  cases htree with
  | read h => exact SyntaxTree.finite_of_read (Reader.of_optional h)
  | absent h => cases h
  | omitted h => cases h

theorem parse_of_read {found : Option SyntaxTree} (h : Json.read readFile text = .ok found) :
    parse text = .ok (ofTree? found) := by
  rw [parse, h]
  rfl

theorem totalOf_of_head? {complexities : List Binary64} {x : Binary64}
    (h : complexities.head? = some x) : totalOf complexities = x.roundToHundredths := by
  cases complexities with
  | nil => cases h
  | cons root rest =>
    cases h
    rfl

end Analysis

namespace Command

variable {m : Machine} {path : Path} {root : Option Path} {overrides : ConfigOverrides}
  {target : Target} {analysis : Analysis}

/-- A command that nothing stands in the way of reports the total of the
analysis. -/
theorem exists_highlightsOf
    (htarget : Target.resolve? path root m.workingDirectory.path = some target)
    (htext : m.readText target.analysisFile = .ok text)
    (hparse : Analysis.parse text = .ok analysis)
    (hfree : ¬Hindered m path root overrides) :
    ∃ result, highlightsOf m path root overrides = .ok result ∧ result.total = analysis.total := by
  have hstored : Storage.parseAnalysis target.analysisFile text = .ok analysis := by
    rw [Storage.parseAnalysis, hparse]
    rfl
  have hanalysis := FileHighlights.analysisOf_eq_ok_iff.mpr ⟨text, htext, hstored⟩
  rw [hindered_iff] at hfree
  cases hresult : highlightsOf m path root overrides with
  | error failure => exact absurd ⟨failure, hresult⟩ hfree
  | ok result =>
    refine ⟨result, rfl, ?_⟩
    simp only [highlightsOf, htarget] at hresult
    split at hresult
    · cases hresult
    · rw [FileHighlights.ofTarget_run, hanalysis] at hresult
      cases hresult
      rfl

/-- The output is a JSON object with the value for its total. -/
def ShowsTotal (output : String) (value : Json) : Prop :=
  ∃ members document, output.toList = document ++ ['\n'] ∧
    Json.Written (.record members) document ∧ Member members "total_complexity" (· = value) False

theorem showsTotal_write (r : FileHighlights) :
    ShowsTotal (r.write .json) (.ofBinary64 r.total) := by
  have hwritten := Json.written_indented 0 r.toJson r.represents.printable
  have hnames : Once ["total_complexity"] ["file", "total_complexity", "highlights"] := by decide
  exact ⟨_, r.toJson.indented 0, String.toList_ofList, hwritten,
    .of_mem hnames (by decide) (.tail _ (.head _)) rfl⟩

/-- The command puts out the value for the total, whether its JSON form is
printed or goes to a file. -/
def PutsOut (m : Machine) (path : Path) (root : Option Path) (overrides : ConfigOverrides)
    (value : Json) : Prop :=
  ∃ text, ShowsTotal text value ∧ ∀ output,
    runOn (.highlight path root overrides .json output) m =
      (deliver output text : ExceptT Failure (StateM Machine) _).run m

theorem putsOut_ofBinary64
    (htarget : Target.resolve? path root m.workingDirectory.path = some target)
    (htext : m.readText target.analysisFile = .ok text)
    (hparse : Analysis.parse text = .ok analysis)
    (hfree : ¬Hindered m path root overrides) :
    PutsOut m path root overrides (.ofBinary64 analysis.total) := by
  obtain ⟨result, hresult, htotal⟩ := exists_highlightsOf htarget htext hparse hfree
  rw [← htotal]
  exact ⟨result.write .json, showsTotal_write result, fun output => runOn_highlight hresult⟩

end Command

open Command (Hindered PutsOut) in
/-- The complexity of the first node in an analysis file is finite, and the
total is that complexity in hundredths, as it is for a list of measured nodes. A
highlight command in JSON form that nothing stands in the way of puts out a
number for the total, one that is read back as the total, and null where it
overflows. -/
theorem Analysis.total_reported (x : Binary64) :
    (∀ nodes, x.isFinite = true → (nodes.map AnalysisNode.complexity).head? = some x →
      InHundredths x (Analysis.ofNodes nodes).total) ∧
    ∀ text tree, Json.read readFile text = .ok (some tree) →
      (tree.nodes.map TreeNode.complexity).head? = some x →
        x.isFinite = true ∧ parse text = .ok tree.toAnalysis ∧
        InHundredths x tree.toAnalysis.total ∧
        ∀ m path root overrides target,
          Target.resolve? path root m.workingDirectory.path = some target →
          m.readText target.analysisFile = .ok text → ¬Hindered m path root overrides →
            (100 * |x.value| < overflowBound → ∃ n : Numeral,
              n.nearest = tree.toAnalysis.total ∧ PutsOut m path root overrides (.number n)) ∧
            (overflowBound ≤ 100 * |x.value| → PutsOut m path root overrides .null) := by
  constructor
  · intro nodes hfinite hfirst
    rw [Analysis.ofNodes, totalOf_of_head? hfirst]
    exact Binary64.inHundredths hfinite
  · intro text tree hread hfirst
    have hparse : parse text = .ok tree.toAnalysis := parse_of_read hread
    obtain ⟨v, -, hfile⟩ := Json.read_eq_ok_iff.mp hread
    have hfinite : x.isFinite = true := by
      obtain ⟨node, hnode, rfl⟩ := List.mem_map.mp (List.mem_of_head? hfirst)
      exact (finite_of_readFile hfile node hnode).complexity
    have htotal : InHundredths x tree.toAnalysis.total := by
      rw [SyntaxTree.toAnalysis, totalOf_of_head? hfirst]
      exact Binary64.inHundredths hfinite
    refine ⟨hfinite, hparse, htotal, ?_⟩
    intro m path root overrides target htarget htext hfree
    have hout := Command.putsOut_ofBinary64 htarget htext hparse hfree
    constructor
    · intro hrange
      obtain ⟨htotalFinite, -⟩ := htotal.near hrange
      rw [Json.ofBinary64, if_pos htotalFinite] at hout
      exact ⟨_, Json.numberLayout.nearest_numeral htotalFinite, hout⟩
    · intro hrange
      rwa [Json.ofBinary64_of_not_finite
        (Binary64.isFinite_of_isInfinite (htotal.past hrange))] at hout

namespace Command

/-- A file whose root has the given complexity. -/
def rootText (complexity : String) : String :=
  "\x7b\"tree\": \x7b\"nodes\": [\x7b\"complexity\": " ++ complexity ++ "\x7d]\x7d\x7d"

def rootMachine (complexity : String) : Machine :=
  { FileHighlights.sampleMachine "" with
    disk := (FileHighlights.sampleMachine "").disk.put
      ["w".toList, ".boltzmann".toList, "lib.rs.blta".toList]
      (.file (Text.encode (rootText complexity))) }

/-- A root without anything else. -/
def rootNode (complexity : Binary64) : TreeNode where
  complexity
  localComplexity := 0
  name := none
  span := .ofCoordinates 0 0 0 0
  parentIndex := none

/-- A file with the given complexity for its root. -/
def rootTree (complexity : Binary64) : SyntaxTree := ⟨[rootNode complexity]⟩

theorem sample_total_reported :
    InHundredths (-0.125)
        (Analysis.ofNodes [⟨-0.125, .ofCoordinates 0 0 0 0, "a", none⟩]).total ∧
      ∃ n : Numeral, n.nearest = (rootTree (-0.125)).toAnalysis.total ∧
        PutsOut (rootMachine "-0.125") ⟨"lib.rs"⟩ (some ⟨"/w"⟩) {} (.number n) := by
  obtain ⟨hnodes, htext⟩ := Analysis.total_reported (-0.125)
  have hfinite : (-0.125 : Binary64).isFinite = true := by decide +kernel
  have hread : Json.read Analysis.readFile (rootText "-0.125") =
      .ok (some (rootTree (-0.125))) := by decide +kernel
  have hrange : 100 * |(-0.125 : Binary64).value| < overflowBound :=
    (Binary64.isFinite_mul_hundred_iff hfinite).mp (by decide +kernel)
  have hfree : ¬Hindered (rootMachine "-0.125") ⟨"lib.rs"⟩ (some ⟨"/w"⟩) {} := by
    rw [hindered_iff]
    rintro ⟨failure, hfailure⟩
    have hok : (highlightsOf (rootMachine "-0.125") ⟨"lib.rs"⟩ (some ⟨"/w"⟩) {}).isOk = true := by
      decide +kernel
    rw [hfailure] at hok
    cases hok
  obtain ⟨-, -, -, hcommand⟩ := htext _ _ hread rfl
  exact ⟨hnodes _ hfinite rfl, (hcommand _ _ _ _ FileHighlights.sampleTarget (by decide +kernel)
    (by decide +kernel) hfree).1 hrange⟩

/-- The complexity is finite, but a hundred times it is not. -/
theorem great_root_overflows :
    (1e308 : Binary64).isFinite = true ∧
      Json.read Analysis.readFile (rootText "1e308") = .ok (some (rootTree 1e308)) ∧
      Analysis.parse (rootText "1e308") = .ok (rootTree 1e308).toAnalysis ∧
      (rootTree 1e308).toAnalysis.total.isFinite = false := by
  have hread : Json.read Analysis.readFile (rootText "1e308") = .ok (some (rootTree 1e308)) := by
    decide +kernel
  exact ⟨by decide +kernel, hread, Analysis.parse_of_read hread, by decide +kernel⟩

end Command

end Hotspot
