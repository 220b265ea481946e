import Hotspot.Proofs.Json.Truncation
import Hotspot.Proofs.Storage.Files
import Hotspot.Text.Utf8

/-!
Files that were cut off. Every part of an analysis file could be left out, so a
shorter file that happened to be a document would pass for a smaller analysis.
None is: what is left of a document is never one. A file is cut between bytes,
and a cut within a character leaves no text at all, which is an error of its
own where an analysis is read.
-/

namespace Hotspot

open Json (Closed Truncated trimmed)

variable {m : Machine} {file : Path} {whole part : String} {bytes : List UInt8} {v : Json}

/-- What is left of a file with the text when more than blanks are lost at its
end. The cut may be within a character. -/
def TruncatedFile (bytes : List UInt8) (whole : String) : Prop :=
  ∃ lost, lost ≠ [] ∧ Text.encode (String.ofList (trimmed whole.toList)) = bytes ++ lost

theorem Text.encode_of_decode? (h : Text.decode? bytes = some part) : Text.encode part = bytes := by
  unfold Text.decode? String.fromUTF8? at h
  split at h
  · cases h
    simp [Text.encode, String.fromUTF8]
  · cases h

theorem Text.decode?_eq_none_iff :
    Text.decode? bytes = none ↔ ∀ text, bytes ≠ Text.encode text := by
  constructor
  · rintro h text rfl
    rw [Text.decode?_encode] at h
    cases h
  · intro h
    cases htext : Text.decode? bytes with
    | none => rfl
    | some text => exact absurd (Text.encode_of_decode? htext).symm (h text)

theorem Text.isPrefix_of_encode {short long : List Char} {lost : List UInt8}
    (h : Text.encode (String.ofList long) = Text.encode (String.ofList short) ++ lost) :
    short <+: long := by
  simp only [Text.encode, String.toUTF8_eq_toByteArray, String.toByteArray_ofList] at h
  apply List.isPrefix_of_utf8Encode_append_eq_utf8Encode ⟨lost.toArray⟩
  apply ByteArray.ext
  rw [ByteArray.data_append, ← Array.toList_inj, Array.toList_append, h]

/-- A file that was cut between characters holds a text that ends early. -/
theorem truncated_of_encode (h : TruncatedFile (Text.encode part) whole) :
    Truncated part.toList whole.toList := by
  obtain ⟨lost, hlost, hwhole⟩ := h
  rw [← String.ofList_toList (s := part)] at hwhole
  refine Json.truncated_iff.mpr ⟨Text.isPrefix_of_encode hwhole, ?_⟩
  intro heq
  rw [heq] at hwhole
  exact hlost (List.self_eq_append_right.mp hwhole)

theorem Analysis.closed_of_readFile (v : Json) (tree : Option SyntaxTree)
    (h : Analysis.readFile v = .ok tree) : Closed v :=
  Json.closed_of_record h

theorem WeightedGraph.closed_of_readProject (v : Json) (graph : Option WeightedGraph)
    (h : WeightedGraph.readProject v = .ok graph) : Closed v :=
  Json.closed_of_record h

/-- What is left of an analysis is no analysis. -/
theorem Analysis.parse_truncated {a : Analysis} (hwhole : Analysis.parse whole = .ok a)
    (hpart : Truncated part.toList whole.toList) : ∃ fault, Analysis.parse part = .error fault := by
  unfold Analysis.parse at hwhole ⊢
  cases hread : Json.read Analysis.readFile whole with
  | error fault =>
    rw [hread] at hwhole
    cases hwhole
  | ok tree =>
    obtain ⟨fault, hfault⟩ := Json.read_truncated Analysis.closed_of_readFile hread hpart
    exact ⟨fault, by rw [hfault]; rfl⟩

/-- What is left of a project file is no project file. -/
theorem WeightedGraph.readProject_truncated {graph : Option WeightedGraph}
    (hwhole : Json.read WeightedGraph.readProject whole = .ok graph)
    (hpart : Truncated part.toList whole.toList) :
    ∃ fault, Json.read WeightedGraph.readProject part = .error fault :=
  Json.read_truncated WeightedGraph.closed_of_readProject hwhole hpart

namespace Storage

theorem readAnalysis_of_fault {fault : ReadFault} (htext : m.readText file = .ok part)
    (hparse : Analysis.parse part = .error fault) :
    (readAnalysis file : StateM Machine _) m =
      (.error (.analysis file (Error.json fault).message), m) := by
  rw [readAnalysis_run, htext]
  simp only [analysisOf, Except.mapError, Except.bind, parseAnalysis, hparse]

theorem readAnalysis_of_fileFault {fault : FileFault} (h : m.readText file = .error fault) :
    (readAnalysis file : StateM Machine _) m =
      (.error (.context ("Failed to read analysis " ++ file.text) (.file fault)), m) := by
  rw [readAnalysis_run, h]
  rfl

/-- An analysis file that was cut between characters is no analysis. -/
theorem readAnalysis_cut {a : Analysis} (haccepted : Analysis.parse whole = .ok a)
    (hcut : TruncatedFile (Text.encode part) whole)
    (hfile : m.disk.lookup m.workingDirectory file = .ok (.file (Text.encode part))) :
    ∃ reason, (readAnalysis file : StateM Machine _) m = (.error (.analysis file reason), m) := by
  have htext := Machine.readText_of_content hfile
  rw [Text.decode?_encode] at htext
  obtain ⟨fault, hfault⟩ := Analysis.parse_truncated haccepted (truncated_of_encode hcut)
  exact ⟨_, readAnalysis_of_fault htext hfault⟩

/-- Bytes that are no text, such as those of a file that was cut within a
character, are not looked at as an analysis. -/
theorem readAnalysis_of_no_text (hbytes : ∀ text, bytes ≠ Text.encode text)
    (hfile : m.disk.lookup m.workingDirectory file = .ok (.file bytes)) :
    (readAnalysis file : StateM Machine _) m =
      (.error (.context ("Failed to read analysis " ++ file.text) (.file .notText)), m) := by
  have htext := Machine.readText_of_content hfile
  rw [Text.decode?_eq_none_iff.mpr hbytes] at htext
  exact readAnalysis_of_fileFault htext

/-- Wherever a project file is cut, between characters or within one, nothing is
attenuated. -/
theorem load_cut {graph : Option WeightedGraph}
    (haccepted : Json.read WeightedGraph.readProject whole = .ok graph)
    (hcut : TruncatedFile bytes whole)
    (hfile : m.disk.lookup m.workingDirectory file = .ok (.file bytes)) :
    Attenuation.ofResult true ((Attenuation.load true file : StateM Machine _) m).1 =
      .disabled := by
  have htext := Machine.readText_of_content hfile
  cases hpart : Text.decode? bytes with
  | none =>
    rw [hpart] at htext
    exact Attenuation.ofResult_load_of_noGraph (.unreadable htext) true
  | some part =>
    rw [hpart] at htext
    rw [← Text.encode_of_decode? hpart] at hcut
    obtain ⟨fault, hfault⟩ :=
      WeightedGraph.readProject_truncated haccepted (truncated_of_encode hcut)
    exact Attenuation.ofResult_load_of_noGraph (.malformed htext hfault) true

/-- No part of an accepted text that ends before its last character other than
a blank is accepted. A file that was cut off there is an error where an
analysis is read: it is no analysis if it still is a text, and cannot be read if
the cut is within a character. Where a project file is loaded it is no graph,
wherever it was cut. -/
theorem truncated_rejected (whole : String) :
    (∀ a, Analysis.parse whole = .ok a →
      (∀ part : String, part.toList <+: trimmed whole.toList →
        part.toList ≠ trimmed whole.toList → ∃ fault, Analysis.parse part = .error fault) ∧
      ∀ (m : Machine) (file : Path) (bytes : List UInt8), TruncatedFile bytes whole →
        m.disk.lookup m.workingDirectory file = .ok (.file bytes) →
          (∀ part, bytes = Text.encode part →
            ∃ reason, (readAnalysis file : StateM Machine _) m =
              (.error (.analysis file reason), m)) ∧
          ((∀ part, bytes ≠ Text.encode part) →
            (readAnalysis file : StateM Machine _) m =
              (.error (.context ("Failed to read analysis " ++ file.text) (.file .notText)), m))) ∧
    (∀ graph, Json.read WeightedGraph.readProject whole = .ok graph →
      (∀ part : String, part.toList <+: trimmed whole.toList →
        part.toList ≠ trimmed whole.toList →
          ∃ fault, Json.read WeightedGraph.readProject part = .error fault) ∧
      ∀ (m : Machine) (file : Path) (bytes : List UInt8), TruncatedFile bytes whole →
        m.disk.lookup m.workingDirectory file = .ok (.file bytes) →
          Attenuation.ofResult true ((Attenuation.load true file : StateM Machine _) m).1 =
            .disabled) := by
  refine ⟨?_, ?_⟩
  · intro a hwhole
    refine ⟨fun part hinitial hne =>
      Analysis.parse_truncated hwhole (Json.truncated_iff.mpr ⟨hinitial, hne⟩), ?_⟩
    intro m file bytes hcut hfile
    refine ⟨?_, fun hbytes => readAnalysis_of_no_text hbytes hfile⟩
    rintro part rfl
    exact readAnalysis_cut hwhole hcut hfile
  · intro graph hwhole
    refine ⟨fun part hinitial hne =>
      WeightedGraph.readProject_truncated hwhole (Json.truncated_iff.mpr ⟨hinitial, hne⟩), ?_⟩
    intro m file bytes hcut hfile
    exact load_cut hwhole hcut hfile

/-- A document that is an analysis file and a project file at once. -/
def finishedDocument : String :=
  "\x7b\"\u00e9\": 0, \"weighted_graph\": \x7b\"nodes\": \x7b\x7d\x7d\x7d\n"

/-- What is left of it when its last brace is lost. -/
def cutDocument : String := "\x7b\"\u00e9\": 0, \"weighted_graph\": \x7b\"nodes\": \x7b\x7d\x7d"

/-- What is left of it when it is cut within the name of its first member. -/
def cutName : List UInt8 := [0x7b, 0x22, 0xc3]

/-- A machine with one file. -/
def fileMachine (bytes : List UInt8) : Machine :=
  ⟨Disk.empty.put ["lib.rs.blta".toList] (.file bytes), [], ""⟩

theorem lookup_fileMachine (bytes : List UInt8) : (fileMachine bytes).disk.lookup
    (fileMachine bytes).workingDirectory ⟨"lib.rs.blta"⟩ = .ok (.file bytes) := rfl

theorem parse_finishedDocument : Analysis.parse finishedDocument = .ok .empty := by
  decide +kernel

theorem cutName_truncated : TruncatedFile cutName finishedDocument :=
  ⟨((Text.encode finishedDocument).drop 3).dropLast, by decide +kernel, by decide +kernel⟩

theorem cutName_ne_encode : ∀ text, cutName ≠ Text.encode text :=
  Text.decode?_eq_none_iff.mp (by decide +kernel)

/-- The document is cut between characters and within one. -/
theorem finishedDocument_cut :
    (∃ fault, Analysis.parse cutDocument = .error fault) ∧
    (∃ reason, (readAnalysis ⟨"lib.rs.blta"⟩ : StateM Machine _)
      (fileMachine (Text.encode cutDocument)) =
        (.error (.analysis ⟨"lib.rs.blta"⟩ reason), fileMachine (Text.encode cutDocument))) ∧
    (readAnalysis ⟨"lib.rs.blta"⟩ : StateM Machine _) (fileMachine cutName) =
      (.error (.context "Failed to read analysis lib.rs.blta" (.file .notText)),
        fileMachine cutName) ∧
    (∃ fault, Json.read WeightedGraph.readProject cutDocument = .error fault) ∧
    Attenuation.ofResult true
      ((Attenuation.load true ⟨"lib.rs.blta"⟩ : StateM Machine _) (fileMachine cutName)).1 =
        .disabled := by
  have hproject : Json.read WeightedGraph.readProject finishedDocument = .ok (some .empty) := by
    decide +kernel
  have hcut : TruncatedFile (Text.encode cutDocument) finishedDocument :=
    ⟨[0x7d], by decide, by decide +kernel⟩
  obtain ⟨hinitial, hne⟩ := Json.truncated_iff.mp (truncated_of_encode hcut)
  obtain ⟨hread, hload⟩ := truncated_rejected finishedDocument
  obtain ⟨hparse, hfile⟩ := hread _ parse_finishedDocument
  exact ⟨hparse cutDocument hinitial hne,
    (hfile _ _ _ hcut (lookup_fileMachine _)).1 _ rfl,
    (hfile _ _ _ cutName_truncated (lookup_fileMachine _)).2 cutName_ne_encode,
    (hload _ hproject).1 cutDocument hinitial hne,
    (hload _ hproject).2 _ _ _ cutName_truncated (lookup_fileMachine _)⟩

/-- A file that is cut within a character is not reported as one that holds no
analysis. -/
theorem cutName_unreadable :
    Analysis.parse finishedDocument = .ok .empty ∧ TruncatedFile cutName finishedDocument ∧
    (fileMachine cutName).disk.lookup (fileMachine cutName).workingDirectory ⟨"lib.rs.blta"⟩ =
      .ok (.file cutName) ∧
    ∀ path reason, ((readAnalysis ⟨"lib.rs.blta"⟩ : StateM Machine _) (fileMachine cutName)).1 ≠
      .error (.analysis path reason) := by
  refine ⟨parse_finishedDocument, cutName_truncated, lookup_fileMachine _, ?_⟩
  intro path reason
  rw [readAnalysis_of_no_text cutName_ne_encode (lookup_fileMachine _)]
  simp

end Storage

end Hotspot
