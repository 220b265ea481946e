import Hotspot.Proofs.Json.Conformance
import Mathlib.Data.List.DropRight

/-!
Documents that are cut off. The text of an array or an object says where it
ends, so no document starts with it and goes on with more than blanks. A record
is an array or an object; a reader of records that accepts a text therefore
rejects every part of it that ends too early.
-/

namespace Hotspot.Json

variable {α : Type} {cs part lost : List Char} {v w : Json}

/-- The text without the blanks at its end. -/
def trimmed (cs : List Char) : List Char := cs.rdropWhile isBlank

/-- The text ends early, with more missing than blanks. -/
def Truncated (part whole : List Char) : Prop :=
  ∃ lost, whole = part ++ lost ∧ ¬Blanks lost

theorem trimmed_eq_nil : trimmed cs = [] ↔ Blanks cs := by
  rw [trimmed, List.rdropWhile_eq_nil_iff]
  exact forall₂_congr fun c _ => isBlank_iff

theorem trimmed_append_of_blanks (h : Blanks lost) (part : List Char) :
    trimmed (part ++ lost) = trimmed part := by
  rw [trimmed, List.rdropWhile, List.reverse_append, List.dropWhile_append_of_pos]
  · rfl
  · intro c hc
    exact isBlank_iff.mpr (h c (List.mem_reverse.mp hc))

theorem trimmed_append (h : ¬Blanks lost) (part : List Char) :
    trimmed (part ++ lost) = part ++ trimmed lost := by
  rw [← trimmed_eq_nil, trimmed, List.rdropWhile, List.reverse_eq_nil_iff] at h
  simp [trimmed, List.rdropWhile, List.dropWhile_append, h]

/-- A text that ends early is a strict prefix of the one without the blanks at its end. -/
theorem truncated_iff : Truncated part cs ↔ part <+: trimmed cs ∧ part ≠ trimmed cs := by
  constructor
  · rintro ⟨lost, rfl, hlost⟩
    rw [trimmed_append hlost]
    refine ⟨List.prefix_append _ _, ?_⟩
    intro heq
    exact hlost (trimmed_eq_nil.mp (List.self_eq_append_right.mp heq))
  · rintro ⟨hinitial, hne⟩
    obtain ⟨extra, hextra⟩ := hinitial
    have hcs : cs = part ++ (extra ++ cs.rtakeWhile isBlank) := by
      rw [← List.append_assoc, hextra, trimmed, List.rdropWhile_append_rtakeWhile]
    refine ⟨_, hcs, ?_⟩
    intro hblanks
    have htrimmed := trimmed_append_of_blanks hblanks part
    rw [← hcs] at htrimmed
    have hpart : trimmed cs <+: part := htrimmed ▸ List.rdropWhile_prefix isBlank part
    exact hne (List.IsPrefix.eq_of_length_le ⟨extra, hextra⟩ hpart.length_le)

/-- A value that ends with a closing bracket. -/
inductive Closed : Json → Prop where
  | array (items : List Json) : Closed (.array items)
  | object (members : List (Option String × Json)) : Closed (.object members)

/-- The parser stops behind a closed value, whatever comes next. -/
theorem value_padded_closed (hv : Padded v cs) (hclosed : Closed v) (lost : List Char) {fuel : Nat}
    (hfuel : 2 * cs.length ≤ fuel) :
    ∃ behind, value fuel (cs ++ lost) = (v, some (behind ++ lost)) := by
  obtain @⟨_, before, text, behind, hbefore, hv, hbehind⟩ := hv
  simp only [List.length_append] at hfuel
  refine ⟨behind, ?_⟩
  rw [List.append_assoc, List.append_assoc, value_append_blanks hbefore]
  refine (accepts fuel).value hv (by omega) ?_
  rintro ⟨n, rfl⟩
  cases hclosed

/-- A document that starts with a closed document ends with it. -/
theorem blanks_of_padded_append (hv : Padded v (part ++ lost)) (hw : Padded w part)
    (hclosed : Closed w) : Blanks lost := by
  have hfuel : 2 * part.length ≤ 2 * (part ++ lost).length := by simp
  obtain ⟨behind, hshort⟩ := value_padded_closed hw hclosed lost hfuel
  obtain ⟨blanks, hblanks, hlong⟩ :=
    (accepts _).padded hv le_rfl endsNumber_nil
  rw [List.append_nil, hshort, List.append_nil] at hlong
  injection hlong with _ hrest
  injection hrest with hrest
  intro c hc
  exact hblanks c (hrest ▸ List.mem_append_right behind hc)

theorem closed_of_record {name : String} {fs : List (Field Json)} {build : Values fs → α} {a : α}
    (h : Reader.record name fs build v = .ok a) : Closed v := by
  have hview := Reader.view_of_record h
  simp only [Document.view] at hview
  cases v with
  | array items => exact .array items
  | object members => exact .object members
  | number n => cases hn : numberValue? n <;> simp [view, hn] at hview
  | string content => cases content <;> simp [view] at hview
  | _ => simp [view] at hview

/-- A reader that takes closed values only rejects every text that ends early. -/
theorem read_truncated {r : Reader Json α} (hclosed : ∀ v a, r v = .ok a → Closed v)
    {part whole : String} {a : α} (hwhole : read r whole = .ok a)
    (hpart : Truncated part.toList whole.toList) : ∃ fault, read r part = .error fault := by
  cases h : read r part with
  | error fault => exact ⟨fault, rfl⟩
  | ok b =>
    obtain ⟨lost, hlost, hblanks⟩ := hpart
    obtain ⟨v, hv, -⟩ := read_eq_ok_iff.mp hwhole
    obtain ⟨w, hw, hb⟩ := read_eq_ok_iff.mp h
    rw [hlost] at hv
    exact absurd (blanks_of_padded_append hv hw (hclosed w b hb)) hblanks

end Hotspot.Json
