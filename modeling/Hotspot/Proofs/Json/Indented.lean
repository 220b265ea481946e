import Hotspot.Proofs.Json.Printing

/-!
The indented form of a tree is in the grammar like the compact one. What it has
more are line breaks and indentation, which stand between tokens only.
-/

namespace Hotspot.Json

variable {before behind : List Char}

theorem blanks_newLine (depth : Nat) : Blanks (newLine depth) := by
  intro c hc
  rcases List.mem_cons.mp hc with rfl | hc
  · decide
  · exact .inl (List.eq_of_mem_replicate hc)

/-- A member is written with one blank behind its colon. -/
theorem writtenMember_spaced {v : Json} {text : List Char} (s : String) (h : Written v text)
    (hbefore : Blanks before) (hbehind : Blanks behind) :
    WrittenMember (some s, v) (before ++ quote s ++ ':' :: ' ' :: (text ++ behind)) := by
  have hspace : Blanks [' '] := by decide
  have hmember := WrittenMember.mk hbefore (writtenString_escape s) blanks_nil
    (.mk hspace h hbehind)
  simpa [quote] using hmember

mutual

theorem written_indented : (depth : Nat) → (v : Json) → v.Printable → Written v (v.indented depth)
  | _, .null, h => written_compact .null h
  | _, .truth b, h => written_compact (.truth b) h
  | _, .number n, h => written_compact (.number n) h
  | _, .string content, h => written_compact (.string content) h
  | _, .array [], _ => .emptyArray blanks_nil
  | depth, .array (item :: items), h => by
    have hitems := writtenItems_indented (depth + 1) (item :: items) (by simp) h
      (blanks_newLine (depth + 1)) (blanks_newLine depth)
    simpa [indented] using Written.array hitems
  | _, .object [], _ => .emptyObject blanks_nil
  | depth, .object (m :: members), h => by
    have hmembers := writtenMembers_indented (depth + 1) (m :: members) (by simp) h
      (blanks_newLine (depth + 1)) (blanks_newLine depth)
    simpa [indented] using Written.object hmembers

/-- The items with the blanks that stand inside the brackets. -/
theorem writtenItems_indented {before behind : List Char} : (depth : Nat) → (items : List Json) →
    items ≠ [] → PrintableItems items → Blanks before → Blanks behind →
    WrittenItems items (before ++ indentedItems depth items ++ behind)
  | depth, [item], _, h, hbefore, hbehind =>
    .last (.mk hbefore (written_indented depth item h.1) hbehind)
  | depth, item :: next :: items, _, h, hbefore, hbehind => by
    have hitem := Padded.mk hbefore (written_indented depth item h.1) blanks_nil
    have hrest := writtenItems_indented depth (next :: items) (by simp) h.2
      (blanks_newLine depth) hbehind
    simpa [indentedItems] using WrittenItems.more hitem hrest

/-- The members with the blanks that stand inside the braces. -/
theorem writtenMembers_indented {before behind : List Char} : (depth : Nat) →
    (members : List (Option String × Json)) → members ≠ [] → PrintableMembers members →
    Blanks before → Blanks behind →
    WrittenMembers members (before ++ indentedMembers depth members ++ behind)
  | depth, [(some s, value)], _, h, hbefore, hbehind => by
    have hmember := writtenMember_spaced s (written_indented depth value h.2.1) hbefore hbehind
    simpa [indentedMembers, quoteContent] using WrittenMembers.last hmember
  | depth, (some s, value) :: next :: members, _, h, hbefore, hbehind => by
    have hmember :=
      writtenMember_spaced s (written_indented depth value h.2.1) hbefore blanks_nil
    have hrest := writtenMembers_indented depth (next :: members) (by simp) h.2.2
      (blanks_newLine depth) hbehind
    simpa [indentedMembers, quoteContent] using WrittenMembers.more hmember hrest

end

end Hotspot.Json
