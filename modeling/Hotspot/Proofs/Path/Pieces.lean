import Hotspot.Path
import Mathlib.Data.List.DropRight
import Mathlib.Tactic

/-!
Texts of paths and the pieces that they are cut into. Cutting a text at its
slashes and writing its pieces again undo each other, as long as no piece holds
a slash and the first piece does not run into the lead. What a path names is
carried by the names among its pieces, so a text may lose the pieces at its
ends that name nothing.
-/

namespace Hotspot.Path

variable {p : Path} {lead piece name suffix : List Char} {ps front : List (List Char)} {n : Nat}

/-- The pieces that name something. -/
def names (p : Path) : List (List Char) := p.pieces.filter isName

theorem components_eq (p : Path) :
    p.components = leadComponents p.lead ++ p.names.map pieceComponent := rfl

@[simp]
theorem chars_ofChars (cs : List Char) : (ofChars cs).chars = cs := String.toList_ofList

@[simp]
theorem ofChars_chars (p : Path) : ofChars p.chars = p :=
  congrArg Path.mk String.ofList_toList

theorem isName_iff : isName piece = true ↔ piece ≠ [] ∧ piece ≠ ['.'] := by
  simp [isName]

/-! Dropping what names nothing. -/

theorem trimEnd_eq_rdropWhile (ps : List (List Char)) :
    trimEnd ps = ps.rdropWhile fun piece => !isName piece := rfl

theorem trimEnd_isPrefix (ps : List (List Char)) : trimEnd ps <+: ps := by
  rw [trimEnd_eq_rdropWhile]
  exact List.rdropWhile_prefix _ _

theorem trimEnd_append_name (h : isName name = true) :
    trimEnd (front ++ [name]) = front ++ [name] := by
  rw [trimEnd_eq_rdropWhile, List.rdropWhile_concat, h]
  rfl

theorem filter_trimEnd (ps : List (List Char)) :
    (trimEnd ps).filter isName = ps.filter isName := by
  induction ps using List.reverseRecOn with
  | nil => rfl
  | append_singleton front piece ih =>
    cases h : isName piece with
    | true => rw [trimEnd_append_name h]
    | false =>
      have hdrop : trimEnd (front ++ [piece]) = trimEnd front := by
        simp [trimEnd_eq_rdropWhile, h]
      rw [hdrop, ih, List.filter_append]
      simp [h]

/-- What is left ends in a name. -/
theorem trimEnd_eq_nil_or (ps : List (List Char)) :
    trimEnd ps = [] ∨ ∃ front name, trimEnd ps = front ++ [name] ∧ isName name = true := by
  by_cases h : trimEnd ps = []
  · exact .inl h
  · right
    refine ⟨(trimEnd ps).dropLast, (trimEnd ps).getLast h,
      (List.dropLast_append_getLast h).symm, ?_⟩
    have hlast := List.rdropWhile_last_not (fun piece => !isName piece) ps h
    rw [Bool.not_eq_true, Bool.not_eq_false'] at hlast
    exact hlast

theorem trimEnd_eq_nil_iff : trimEnd ps = [] ↔ ps.filter isName = [] := by
  rw [← filter_trimEnd]
  constructor
  · intro h
    rw [h]
    rfl
  · intro h
    rcases trimEnd_eq_nil_or ps with hnil | ⟨front, name, heq, hname⟩
    · exact hnil
    · simp [heq, hname] at h

theorem filter_dropNames (n : Nat) (ps : List (List Char)) :
    (dropNames n ps).filter isName = (ps.filter isName).drop n := by
  fun_induction dropNames n ps with
  | case1 => simp
  | case2 piece rest h => simp
  | case3 piece rest h ih => simpa [h] using ih
  | case4 count piece rest h ih => simpa [h] using ih
  | case5 count piece rest h ih => simpa [h] using ih

theorem dropNames_suffix (n : Nat) (ps : List (List Char)) : dropNames n ps <:+ ps := by
  fun_induction dropNames n ps with
  | case1 => exact List.suffix_refl _
  | case2 piece rest h => exact List.suffix_refl _
  | case3 piece rest h ih => exact ih.trans (List.suffix_cons _ _)
  | case4 count piece rest h ih => exact ih.trans (List.suffix_cons _ _)
  | case5 count piece rest h ih => exact ih.trans (List.suffix_cons _ _)

theorem isName_of_head?_dropNames (h : piece ∈ (dropNames n ps).head?) : isName piece = true := by
  fun_induction dropNames n ps with
  | case1 => cases h
  | case2 first rest hname =>
    cases h
    exact hname
  | case3 first rest hname ih => exact ih h
  | case4 count first rest hname ih => exact ih h
  | case5 count first rest hname ih => exact ih h

/-! Cutting a text and writing it again. -/

theorem head?_splitOn (cs : List Char) :
    (cs.splitOn '/').head? = some (cs.takeWhile (· != '/')) := by
  induction cs with
  | nil => rfl
  | cons c rest ih =>
    rw [List.splitOn_cons_eq_if_modifyHead]
    by_cases h : c = '/'
    · simp [h]
    · cases hrest : rest.splitOn '/' with
      | nil => exact absurd hrest (List.splitOn_ne_nil _ _)
      | cons first more =>
        rw [hrest] at ih
        simp_all

theorem slash_notMem_of_mem_splitOn {cs : List Char} (h : piece ∈ cs.splitOn '/') :
    '/' ∉ piece := by
  induction cs generalizing piece with
  | nil => simp_all
  | cons c rest ih =>
    rw [List.splitOn_cons_eq_if_modifyHead] at h
    split at h
    · rcases List.mem_cons.mp h with rfl | hrest
      · simp
      · exact ih hrest
    · rename_i hc
      cases hrest : rest.splitOn '/' with
      | nil => exact absurd hrest (List.splitOn_ne_nil _ _)
      | cons first more =>
        rw [hrest, List.modifyHead_cons] at h
        rw [hrest] at ih
        rcases List.mem_cons.mp h with rfl | hmore
        · have hfirst := ih (List.mem_cons_self ..)
          have hne : '/' ≠ c := by
            rintro rfl
            simp at hc
          simp [hfirst, hne]
        · exact ih (List.mem_cons_of_mem _ hmore)

theorem slash_notMem_of_mem_pieces (h : piece ∈ p.pieces) : '/' ∉ piece :=
  slash_notMem_of_mem_splitOn h

theorem lead_append_drop (p : Path) : p.lead ++ p.chars.drop p.lead.length = p.chars := by
  unfold lead
  split <;> simp_all

/-- The text of a path is its lead and its pieces. -/
theorem ofPieces_lead_pieces (p : Path) : ofPieces p.lead p.pieces = p := by
  rw [ofPieces, pieces, List.intercalate_splitOn, lead_append_drop, ofChars_chars]

/-- Pieces that can stand behind a lead without changing it. -/
inductive Fits : List Char → List (List Char) → Prop where
  | root (ps : List (List Char)) : Fits ['/'] ps
  | here : Fits ['.'] []
  | behindHere (rest : List (List Char)) : Fits ['.'] ([] :: rest)
  | empty : Fits [] []
  | named {name : List Char} (rest : List (List Char)) (h : isName name = true) :
      Fits [] (name :: rest)

/-- A text that does not start like a root or a starting directory starts with
a name. -/
theorem isName_takeWhile {cs : List Char} (hne : cs ≠ []) (hroot : ∀ rest, cs ≠ '/' :: rest)
    (hpoint : cs ≠ ['.']) (hhere : ∀ rest, cs ≠ '.' :: '/' :: rest) :
    isName (cs.takeWhile (· != '/')) = true := by
  rw [isName_iff]
  rcases cs with _ | ⟨c, rest⟩
  · exact absurd rfl hne
  · have hc : c ≠ '/' := by
      rintro rfl
      exact hroot rest rfl
    rw [List.takeWhile_cons_of_pos (by simpa using hc)]
    refine ⟨List.cons_ne_nil _ _, ?_⟩
    intro heq
    obtain ⟨rfl, hrest⟩ := List.cons.inj heq
    rcases rest with _ | ⟨d, rest⟩
    · exact hpoint rfl
    · have hd : d = '/' := by
        by_contra hd
        rw [List.takeWhile_cons_of_pos (by simpa using hd)] at hrest
        exact List.cons_ne_nil _ _ hrest
      subst hd
      exact hhere rest rfl

theorem fits_pieces (h : p.chars ≠ []) : Fits p.lead p.pieces := by
  have hhead := head?_splitOn (p.chars.drop p.lead.length)
  unfold pieces
  cases hps : (p.chars.drop p.lead.length).splitOn '/' with
  | nil => exact absurd hps (List.splitOn_ne_nil _ _)
  | cons first rest =>
    rw [hps, List.head?_cons, Option.some_inj] at hhead
    subst hhead
    clear hps
    unfold lead
    split
    · exact .root _
    · rename_i hcs
      simpa [hcs] using Fits.behindHere rest
    · rename_i hcs
      simpa [hcs] using Fits.behindHere rest
    · rename_i hroot hpoint hhere
      exact .named _ (isName_takeWhile h hroot hpoint hhere)

/-- The first pieces fit where all of them do. -/
theorem Fits.of_isPrefix (h : Fits lead ps) (hfront : front <+: ps) : Fits lead front := by
  obtain ⟨rest, rfl⟩ := hfront
  cases front with
  | nil => cases h <;> constructor
  | cons first more =>
    cases h with
    | root => exact .root _
    | behindHere => exact .behindHere _
    | named _ h => exact .named _ h

/-- Behind some names a text starts with the next one. -/
theorem fits_dropNames (n : Nat) (ps : List (List Char)) : Fits [] (dropNames n ps) := by
  cases hdrop : dropNames n ps with
  | nil => exact .empty
  | cons first rest =>
    have hhead : first ∈ (dropNames n ps).head? := by
      rw [hdrop]
      rfl
    exact .named rest (isName_of_head?_dropNames hhead)

/-- The first pieces of a path fit behind its lead up to their last name. -/
theorem fits_trimEnd (h : front <+: p.pieces) : Fits p.lead (trimEnd front) := by
  by_cases hchars : p.chars = []
  · have hlead : p.lead = [] := by
      rw [lead, hchars]
    have hpieces : p.pieces = [[]] := by
      simp [pieces, hchars]
    have htrim : trimEnd front = [] := by
      rw [trimEnd_eq_nil_iff, List.filter_eq_nil_iff]
      intro piece hpiece
      have hmem := h.subset hpiece
      rw [hpieces, List.mem_singleton] at hmem
      simp [hmem, isName]
    rw [hlead, htrim]
    exact .empty
  · exact (fits_pieces hchars).of_isPrefix ((trimEnd_isPrefix front).trans h)

/-- Another name may stand at the end. -/
theorem Fits.replace_last (h : Fits lead (front ++ [piece])) (hpiece : isName piece = true)
    (hname : isName name = true) : Fits lead (front ++ [name]) := by
  cases front with
  | nil =>
    generalize hps : [] ++ [piece] = ps at h
    cases h with
    | root => exact .root _
    | here => cases hps
    | behindHere =>
      cases hps
      cases hpiece
    | empty => cases hps
    | named => exact .named _ hname
  | cons first rest =>
    cases h with
    | root => exact .root _
    | behindHere => exact .behindHere _
    | named _ h => exact .named _ h

theorem chars_ofPieces (lead : List Char) (ps : List (List Char)) :
    (ofPieces lead ps).chars = lead ++ ['/'].intercalate ps := by
  rw [ofPieces, chars_ofChars]

/-- A text that starts with a name has no lead. -/
theorem lead_eq_nil (h : isName (p.chars.takeWhile (· != '/')) = true) : p.lead = [] := by
  unfold lead
  split
  · rename_i hcs
    rw [hcs] at h
    cases h
  · rename_i hcs
    rw [hcs] at h
    cases h
  · rename_i hcs
    rw [hcs] at h
    cases h
  · rfl

theorem lead_ofPieces (h : Fits lead ps) (hslash : ∀ piece ∈ ps, '/' ∉ piece) :
    (ofPieces lead ps).lead = lead := by
  cases h with
  | root => simp [Path.lead, chars_ofPieces]
  | here => simp [Path.lead, chars_ofPieces]
  | behindHere rest => cases rest <;> simp [Path.lead, chars_ofPieces]
  | empty => simp [Path.lead, chars_ofPieces]
  | @named name rest hname =>
    apply lead_eq_nil
    have hhead := head?_splitOn (['/'].intercalate (name :: rest))
    rw [List.splitOn_intercalate '/' hslash (List.cons_ne_nil _ _), List.head?_cons,
      Option.some_inj] at hhead
    rw [chars_ofPieces, List.nil_append, ← hhead]
    exact hname

theorem pieces_ofPieces (h : Fits lead ps) (hslash : ∀ piece ∈ ps, '/' ∉ piece) (hne : ps ≠ []) :
    (ofPieces lead ps).pieces = ps := by
  rw [pieces, lead_ofPieces h hslash, chars_ofPieces, List.drop_left,
    List.splitOn_intercalate '/' hslash hne]

theorem names_ofPieces (h : Fits lead ps) (hslash : ∀ piece ∈ ps, '/' ∉ piece) :
    (ofPieces lead ps).names = ps.filter isName := by
  by_cases hne : ps = []
  · subst hne
    rw [names, pieces, lead_ofPieces h hslash, chars_ofPieces, List.drop_left]
    rfl
  · rw [names, pieces_ofPieces h hslash hne]

theorem components_ofPieces (h : Fits lead ps) (hslash : ∀ piece ∈ ps, '/' ∉ piece) :
    (ofPieces lead ps).components =
      leadComponents lead ++ (ps.filter isName).map pieceComponent := by
  rw [components_eq, lead_ofPieces h hslash, names_ofPieces h hslash]

theorem intercalate_append_last (front : List (List Char)) (name suffix : List Char) :
    ['/'].intercalate (front ++ [name ++ suffix]) =
      ['/'].intercalate (front ++ [name]) ++ suffix := by
  induction front with
  | nil => simp
  | cons first rest ih =>
    rw [List.cons_append, List.cons_append, List.intercalate_cons_of_ne_nil (by simp),
      List.intercalate_cons_of_ne_nil (by simp), ih]
    simp

/-! Texts that end in a name. -/

/-- The last piece of the text is a name: it does not end in a slash or in a
single point, and it is not empty. -/
def EndsInName (p : Path) : Prop :=
  ∃ front name, p.pieces = front ++ [name] ∧ isName name = true

theorem fits_of_pieces_eq (h : p.pieces = front ++ [name]) (hname : isName name = true) :
    Fits p.lead (front ++ [name]) := by
  have hfits := fits_trimEnd (p := p) (List.prefix_refl _)
  rwa [h, trimEnd_append_name hname] at hfits

theorem names_of_pieces_eq (h : p.pieces = front ++ [name]) (hname : isName name = true) :
    p.names = front.filter isName ++ [name] := by
  rw [names, h, List.filter_append]
  simp [hname]

/-- What is put behind a text belongs to its last piece. -/
theorem splitOn_append_suffix {cs : List Char} (h : cs.splitOn '/' = front ++ [name])
    {suffix : List Char} (hsuffix : '/' ∉ suffix) :
    (cs ++ suffix).splitOn '/' = front ++ [name ++ suffix] := by
  have hpieces : ∀ piece ∈ front ++ [name], '/' ∉ piece := by
    intro piece hpiece
    exact slash_notMem_of_mem_splitOn (h ▸ hpiece)
  have hslash : ∀ piece ∈ front ++ [name ++ suffix], '/' ∉ piece := by
    intro piece hpiece
    rcases List.mem_append.mp hpiece with hfront | hlast
    · exact hpieces piece (List.mem_append_left _ hfront)
    · rw [List.mem_singleton] at hlast
      have hname := hpieces name (by simp)
      simp [hlast, hname, hsuffix]
  have htext : cs = ['/'].intercalate (front ++ [name]) := by
    rw [← h, List.intercalate_splitOn]
  rw [htext, ← intercalate_append_last, List.splitOn_intercalate '/' hslash (by simp)]

end Hotspot.Path
