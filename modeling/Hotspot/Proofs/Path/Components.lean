import Hotspot.Proofs.Path.Pieces

/-!
What the operations on paths do to components. Joining appends them, the parent
drops the last one, taking a base away drops those of the base, and taking an
extension away changes the last one only. The texts in between do not matter,
except that a suffix put behind a text has to meet a name there.
-/

namespace Hotspot.Path

variable {p q base : Path} {name stem extension : List Char} {front : List (List Char)} {i : Nat}

theorem eq_of_chars_eq (h : p.chars = q.chars) : p = q := by
  cases p
  cases q
  exact congrArg Path.mk (String.toList_injective h)

theorem same_iff : p.same q = true ↔ p.components = q.components := beq_iff_eq

/-! Joining. -/

/-- The lead holds no name, so the names of a path are those in its whole text. -/
theorem names_eq_filter_splitOn (p : Path) : p.names = (p.chars.splitOn '/').filter isName := by
  unfold names pieces lead
  split
  · rename_i hcs
    simp [hcs, List.splitOn_cons_eq_if_modifyHead, isName]
  · rename_i hcs
    rw [hcs]
    rfl
  · rename_i rest hcs
    have hsplit := List.splitOn_append_cons_self (a := '/') ['.'] rest
    rw [List.singleton_append] at hsplit
    rw [hcs, hsplit]
    simp [List.splitOn_cons_eq_if_modifyHead, isName]
  · rfl

theorem isAbsolute_iff : p.isAbsolute = true ↔ p.lead = ['/'] := by
  simp [isAbsolute]

theorem isAbsolute_iff_head? : p.isAbsolute = true ↔ p.chars.head? = some '/' := by
  rw [isAbsolute_iff, List.head?_eq_some_iff]
  unfold lead
  split <;> simp_all

/-- An absolute path is one whose first component is the root. -/
theorem isAbsolute_iff_components : p.isAbsolute = true ↔ p.components.head? = some .root := by
  rw [isAbsolute_iff, components_eq]
  unfold leadComponents
  by_cases hroot : p.lead = ['/']
  · simp [hroot]
  · rw [if_neg hroot]
    by_cases hhere : p.lead = ['.']
    · simp [hhere]
    · have hpiece : ∀ piece, pieceComponent piece ≠ .root := by
        intro piece
        unfold pieceComponent
        split <;> simp
      simp [hroot, hhere, hpiece]

theorem join_of_isAbsolute (h : q.isAbsolute = true) : p.join q = q := by
  simp [join, h]

/-- Joining puts at most a slash between the two texts. -/
theorem chars_join (h : q.isAbsolute = false) :
    (p.join q).chars =
      if p.chars = [] ∨ p.chars.getLast? = some '/' then p.chars ++ q.chars
      else p.chars ++ '/' :: q.chars := by
  unfold join
  rw [h, if_neg (by simp)]
  by_cases hp : p.chars = [] ∨ p.chars.getLast? = some '/'
  · rw [if_pos (by simpa using hp), if_pos hp]
    simp [chars]
  · rw [if_neg (by simpa using hp), if_neg hp]
    simp [chars]

theorem names_join (h : q.isAbsolute = false) : (p.join q).names = p.names ++ q.names := by
  simp only [names_eq_filter_splitOn]
  rw [chars_join h, ← List.filter_append]
  split
  · rename_i hp
    rcases hp with hnil | hslash
    · rw [hnil]
      rfl
    · obtain ⟨cs, hcs⟩ := List.getLast?_eq_some_iff.mp hslash
      rw [hcs, List.append_assoc, List.singleton_append, List.splitOn_append_cons_self,
        List.splitOn_append_cons_self]
      simp [isName]
  · rw [List.splitOn_append_cons_self]

/-- The lead of a text depends on its first two characters. -/
theorem lead_of_chars_eq {c d : Char} {cs : List Char} (h : p.chars = c :: d :: cs) :
    p.lead = if c = '/' then ['/'] else if c = '.' ∧ d = '/' then ['.'] else [] := by
  unfold lead
  rw [h]
  by_cases hslash : c = '/'
  · simp [hslash]
  · by_cases hpoint : c = '.' ∧ d = '/'
    · simp [hpoint]
    · rw [if_neg hslash, if_neg hpoint]
      split <;> simp_all

theorem lead_join (h : q.isAbsolute = false) (hp : p.chars ≠ []) : (p.join q).lead = p.lead := by
  rcases hcs : p.chars with _ | ⟨c, _ | ⟨d, cs⟩⟩
  · exact absurd hcs hp
  · unfold lead
    rw [chars_join h, hcs]
    by_cases hslash : c = '/'
    · simp [hslash]
    · rw [if_neg (by simpa using hslash)]
      by_cases hpoint : c = '.'
      · simp [hpoint]
      · simp [hslash, hpoint]
  · obtain ⟨more, hmore⟩ : ∃ more, (p.join q).chars = c :: d :: more := by
      rw [chars_join h, hcs]
      split
      · exact ⟨cs ++ q.chars, rfl⟩
      · exact ⟨cs ++ '/' :: q.chars, rfl⟩
    rw [lead_of_chars_eq hcs, lead_of_chars_eq hmore]

theorem components_join (h : q.isAbsolute = false) (hp : p.chars ≠ []) :
    (p.join q).components = p.components ++ q.names.map pieceComponent := by
  rw [components_eq, components_eq, lead_join h hp, names_join h, List.map_append,
    List.append_assoc]

theorem components_of_lead_eq_nil (h : p.lead = []) :
    p.components = p.names.map pieceComponent := by
  rw [components_eq, h]
  rfl

theorem isAbsolute_of_lead_eq_nil (h : p.lead = []) : p.isAbsolute = false := by
  rw [isAbsolute, h]
  rfl

theorem components_of_chars_eq_nil (h : p.chars = []) : p.components = [] := by
  have hlead : p.lead = [] := by
    rw [lead, h]
  rw [components_of_lead_eq_nil hlead, names_eq_filter_splitOn, h]
  rfl

theorem components_join_of_lead_eq_nil (h : q.lead = []) :
    (p.join q).components = p.components ++ q.components := by
  have hq := isAbsolute_of_lead_eq_nil h
  by_cases hp : p.chars = []
  · have hchars : (p.join q).chars = q.chars := by
      rw [chars_join hq, if_pos (.inl hp), hp, List.nil_append]
    rw [eq_of_chars_eq hchars, components_of_chars_eq_nil hp, List.nil_append]
  · rw [components_join hq hp, components_of_lead_eq_nil h]

/-! Parents. -/

theorem slash_notMem_of_isPrefix {ps : List (List Char)} (h : ps <+: p.pieces) :
    ∀ piece ∈ ps, '/' ∉ piece :=
  fun _ hpiece => slash_notMem_of_mem_pieces (h.subset hpiece)

/-- The text of the first pieces of a path, up to their last name. -/
theorem components_ofPieces_trimEnd (h : front <+: p.pieces) :
    (ofPieces p.lead (trimEnd front)).components =
      leadComponents p.lead ++ (front.filter isName).map pieceComponent := by
  rw [components_ofPieces (fits_trimEnd h)
    (slash_notMem_of_isPrefix ((trimEnd_isPrefix front).trans h)), filter_trimEnd]

theorem names_eq_of_trimEnd_eq (h : trimEnd p.pieces = front ++ [name])
    (hname : isName name = true) : p.names = front.filter isName ++ [name] := by
  rw [names, ← filter_trimEnd, h, List.filter_append]
  simp [hname]

/-- A parent is the empty path, above a point alone, or it is written with the
pieces up to the name before the last. -/
theorem exists_of_parent? (h : p.parent? = some q) :
    (p.lead = ['.'] ∧ p.names = [] ∧ q = ofChars []) ∨
      ∃ front last, trimEnd p.pieces = front ++ [last] ∧ isName last = true ∧
        q = ofPieces p.lead (trimEnd front) := by
  unfold parent? at h
  rcases trimEnd_eq_nil_or p.pieces with hnil | ⟨front, last, htrim, hlast⟩
  · left
    simp only [hnil] at h
    by_cases hlead : p.lead = ['.']
    · rw [if_pos hlead] at h
      cases h
      exact ⟨hlead, trimEnd_eq_nil_iff.mp hnil, rfl⟩
    · rw [if_neg hlead] at h
      cases h
  · right
    rw [htrim] at h
    exact ⟨front, last, htrim, hlast, by simpa using h.symm⟩

theorem components_of_parent? (h : p.parent? = some q) :
    q.components = p.components.dropLast := by
  rcases exists_of_parent? h with ⟨hlead, hnames, rfl⟩ | ⟨front, last, htrim, hlast, rfl⟩
  · rw [components_eq p, hnames, hlead]
    rfl
  · have hfront : front <+: p.pieces :=
      (List.prefix_append front [last]).trans (htrim ▸ trimEnd_isPrefix p.pieces)
    rw [components_ofPieces_trimEnd hfront, components_eq,
      names_eq_of_trimEnd_eq htrim hlast, List.map_append, List.map_singleton,
      ← List.append_assoc, List.dropLast_concat]

/-- Only the root and the empty path have no parent. -/
theorem exists_parent? (h : p.names ≠ []) : ∃ q, p.parent? = some q := by
  unfold parent?
  split
  · rename_i hnil
    exact absurd (trimEnd_eq_nil_iff.mp hnil) h
  · exact ⟨_, rfl⟩

theorem pieceComponent_eq_normal_iff {piece : List Char} :
    pieceComponent piece = .normal name ↔ piece ≠ ['.', '.'] ∧ piece = name := by
  unfold pieceComponent
  split <;> simp_all

theorem normal_notMem_leadComponents (lead name : List Char) :
    .normal name ∉ leadComponents lead := by
  unfold leadComponents
  split
  · simp
  · split <;> simp

theorem fileName?_eq_some_iff :
    p.fileName? = some name ↔ p.components.getLast? = some (.normal name) := by
  unfold fileName?
  rcases trimEnd_eq_nil_or p.pieces with hnil | ⟨front, last, htrim, hlast⟩
  · have hnames : p.names = [] := trimEnd_eq_nil_iff.mp hnil
    have hlead := normal_notMem_leadComponents p.lead name
    rw [hnil, components_eq, hnames]
    simp only [List.getLast?_nil, List.map_nil, List.append_nil]
    constructor
    · intro h
      cases h
    · intro h
      exact absurd (List.mem_of_getLast? h) hlead
  · rw [components_eq, names_eq_of_trimEnd_eq htrim hlast, List.map_append,
      ← List.append_assoc, List.map_singleton, List.getLast?_concat, Option.some_inj,
      pieceComponent_eq_normal_iff]
    simp only [htrim, List.getLast?_concat]
    split <;> simp_all

theorem names_ne_nil_of_mem (name : List Char) (h : .normal name ∈ p.components) :
    p.names ≠ [] := by
  intro hnil
  rw [components_eq, hnil, List.map_nil, List.append_nil] at h
  exact normal_notMem_leadComponents _ _ h

/-- A path of names only has no lead. -/
theorem lead_eq_nil_of_normal (h : ∀ c ∈ p.components, ∃ name, c = .normal name) :
    p.lead = [] := by
  have hcases : p.lead = ['/'] ∨ p.lead = ['.'] ∨ p.lead = [] := by
    unfold lead
    split <;> simp
  rcases hcases with hlead | hlead | hlead
  · obtain ⟨name, hname⟩ := h .root (by simp [components_eq, leadComponents, hlead])
    cases hname
  · obtain ⟨name, hname⟩ := h .here (by simp [components_eq, leadComponents, hlead])
    cases hname
  · exact hlead

/-! Ancestors. -/

/-- The path that going up `i` times leads to. -/
def ancestor? : Nat → Path → Option Path
  | 0, p => some p
  | i + 1, p => p.parent?.bind (ancestor? i)

theorem getElem?_ancestors (depth i : Nat) (p : Path) :
    (ancestors depth p)[i]? = if i < depth then ancestor? i p else none := by
  induction depth generalizing i p with
  | zero => rfl
  | succ depth ih =>
    rw [ancestors]
    cases i with
    | zero => simp [ancestor?]
    | succ i =>
      rw [List.getElem?_cons_succ, ancestor?]
      cases p.parent? with
      | none => simp
      | some parent => simp [ih]

/-- Each step up drops the last component. -/
theorem components_of_ancestor? (h : ancestor? i p = some q) :
    q.components = p.components.take (p.components.length - i) := by
  induction i generalizing p with
  | zero =>
    cases h
    simp
  | succ i ih =>
    rw [ancestor?] at h
    cases hparent : p.parent? with
    | none => simp [hparent] at h
    | some parent =>
      rw [hparent, Option.bind_some] at h
      rw [ih h, components_of_parent? hparent, List.dropLast_eq_take, List.take_take,
        List.length_take]
      congr 1
      omega

theorem length_leadComponents_le (lead : List Char) : (leadComponents lead).length ≤ 1 := by
  unfold leadComponents
  split
  · simp
  · split <;> simp

/-- Going up does not end before the components do. -/
theorem exists_ancestor? (h : i < p.components.length) : ∃ q, ancestor? i p = some q := by
  induction i generalizing p with
  | zero => exact ⟨p, rfl⟩
  | succ i ih =>
    have hnames : p.names ≠ [] := by
      intro hnil
      have hlead := length_leadComponents_le p.lead
      rw [components_eq, hnil] at h
      simp at h
      omega
    obtain ⟨parent, hparent⟩ := exists_parent? hnames
    have hlength : i < parent.components.length := by
      rw [components_of_parent? hparent, List.length_dropLast]
      omega
    obtain ⟨q, hq⟩ := ih hlength
    exact ⟨q, by rw [ancestor?, hparent, Option.bind_some, hq]⟩

theorem length_intercalate (ps : List (List Char)) :
    (['/'].intercalate ps).length = (ps.map List.length).sum + (ps.length - 1) := by
  induction ps with
  | nil => rfl
  | cons first rest ih =>
    cases rest with
    | nil => simp
    | cons second rest =>
      rw [List.intercalate_cons_cons, List.length_append, List.length_append, ih]
      simp
      omega

theorem length_chars_ofPieces (lead : List Char) (ps : List (List Char)) :
    (ofPieces lead ps).chars.length =
      lead.length + ((ps.map List.length).sum + (ps.length - 1)) := by
  rw [chars_ofPieces, List.length_append, length_intercalate]

/-- The last name of a path is not part of its parent's text. -/
theorem length_chars_of_parent? (h : p.parent? = some q) : q.chars.length < p.chars.length := by
  rcases exists_of_parent? h with ⟨hlead, -, rfl⟩ | ⟨front, last, htrim, hlast, rfl⟩
  · rw [← lead_append_drop p, hlead]
    simp [ofChars, chars]
  · obtain ⟨rest, hrest⟩ := trimEnd_isPrefix p.pieces
    obtain ⟨more, hmore⟩ := trimEnd_isPrefix front
    have hp := length_chars_ofPieces p.lead (trimEnd front ++ more ++ [last] ++ rest)
    rw [hmore, ← htrim, hrest, ofPieces_lead_pieces, ← hrest, htrim, ← hmore] at hp
    have hpos : 0 < last.length := List.length_pos_iff.mpr (isName_iff.mp hlast).1
    rw [length_chars_ofPieces, hp]
    simp
    omega

theorem ancestors_eq_of_lt (depth depth' : Nat) (h : p.chars.length < depth)
    (h' : p.chars.length < depth') : ancestors depth p = ancestors depth' p := by
  induction depth generalizing depth' p with
  | zero => omega
  | succ depth ih =>
    obtain ⟨depth', rfl⟩ : ∃ n, depth' = n + 1 := ⟨depth' - 1, by omega⟩
    rw [ancestors, ancestors]
    cases hparent : p.parent? with
    | none => rfl
    | some parent =>
      have hshort := length_chars_of_parent? hparent
      rw [Option.map_some, Option.map_some,
        ih depth' (by omega) (by omega)]

/-- The bound on the number of ancestors is never reached. -/
theorem allAncestors_eq (p : Path) :
    p.allAncestors = p :: (p.parent?.map allAncestors).getD [] := by
  rw [allAncestors, ancestors]
  cases hparent : p.parent? with
  | none => rfl
  | some parent =>
    have hshort := length_chars_of_parent? hparent
    rw [Option.map_some, Option.map_some, allAncestors,
      ancestors_eq_of_lt _ (parent.chars.length + 1) hshort (by omega)]

/-- Ancestors are fronts of a path. -/
theorem isPrefix_of_mem_allAncestors (h : q ∈ p.allAncestors) : q.components <+: p.components := by
  obtain ⟨i, hi⟩ := List.mem_iff_getElem?.mp h
  rw [allAncestors, getElem?_ancestors] at hi
  split at hi
  · rw [components_of_ancestor? hi]
    exact List.take_prefix _ _
  · cases hi

/-! Taking a base away. -/

/-- What is left behind a base is written with pieces of the path, from a name
to a name. Only the empty base leaves the lead. -/
theorem exists_of_stripPrefix? (h : p.stripPrefix? base = some q) :
    ∃ lead ps, q = ofPieces lead (trimEnd ps) ∧ Fits lead (trimEnd ps) ∧
      (∀ piece ∈ trimEnd ps, '/' ∉ piece) ∧
      p.components =
        base.components ++ (leadComponents lead ++ (ps.filter isName).map pieceComponent) ∧
      (lead = if base.components = [] then p.lead else []) := by
  unfold stripPrefix? at h
  simp only at h
  split at h
  · rename_i hstarts
    rw [List.isPrefixOf_iff_prefix] at hstarts
    have hbase := hstarts
    rw [List.prefix_iff_eq_take] at hbase
    by_cases hempty : base.components = []
    · rw [if_pos (by simp [hempty]), Option.some_inj] at h
      refine ⟨p.lead, p.pieces, h.symm, fits_trimEnd (List.prefix_refl _),
        slash_notMem_of_isPrefix (trimEnd_isPrefix _), ?_, by rw [if_pos hempty]⟩
      rw [hempty]
      rfl
    · rw [if_neg (by simpa using hempty), Option.some_inj] at h
      have hpos := List.length_pos_iff.mpr hempty
      have hlead : (leadComponents p.lead).length ≤ base.components.length :=
        Nat.le_trans (length_leadComponents_le p.lead) hpos
      have hfits := fits_dropNames
        (base.components.length - (leadComponents p.lead).length) p.pieces
      refine ⟨[], _, h.symm, hfits.of_isPrefix (trimEnd_isPrefix _), ?_, ?_, by rw [if_neg hempty]⟩
      · intro piece hpiece
        exact slash_notMem_of_mem_pieces
          ((dropNames_suffix _ _).subset ((trimEnd_isPrefix _).subset hpiece))
      · rw [filter_dropNames, List.map_drop]
        conv_lhs => rw [← List.take_append_drop base.components.length p.components]
        rw [← hbase, components_eq p, List.drop_append, List.drop_eq_nil_of_le hlead]
        rfl
  · cases h

/-- A base can be taken away exactly where the path starts with it. -/
theorem exists_stripPrefix?_iff :
    (∃ q, p.stripPrefix? base = some q) ↔ base.components <+: p.components := by
  unfold stripPrefix?
  simp only
  split
  · rename_i hstarts
    rw [List.isPrefixOf_iff_prefix] at hstarts
    simp [hstarts]
  · rename_i hstarts
    rw [List.isPrefixOf_iff_prefix] at hstarts
    simp [hstarts]

theorem components_of_stripPrefix? (h : p.stripPrefix? base = some q) :
    p.components = base.components ++ q.components := by
  obtain ⟨lead, ps, rfl, hfits, hslash, hcomponents, -⟩ := exists_of_stripPrefix? h
  rw [components_ofPieces hfits hslash, filter_trimEnd]
  exact hcomponents

theorem lead_of_stripPrefix? (h : p.stripPrefix? base = some q) :
    q.lead = if base.components = [] then p.lead else [] := by
  obtain ⟨lead, ps, rfl, hfits, hslash, -, hlead⟩ := exists_of_stripPrefix? h
  rw [lead_ofPieces hfits hslash, hlead]

/-- What is left ends in a name, if it names anything. -/
theorem endsInName_of_stripPrefix? (h : p.stripPrefix? base = some q) (hq : q.names ≠ []) :
    q.EndsInName := by
  obtain ⟨lead, ps, rfl, hfits, hslash, -, -⟩ := exists_of_stripPrefix? h
  rcases trimEnd_eq_nil_or ps with hnil | ⟨front, last, htrim, hlast⟩
  · rw [names_ofPieces hfits hslash, hnil] at hq
    exact absurd rfl hq
  · refine ⟨front, last, ?_, hlast⟩
    rw [pieces_ofPieces hfits hslash (by simp [htrim]), htrim]

/-! Extensions. -/

theorem splitName_append (hstem : stem ≠ []) (hextension : '.' ∉ extension) :
    splitName (stem ++ '.' :: extension) = (stem, some extension) := by
  have htake : ((stem ++ '.' :: extension).reverse.takeWhile (· != '.')).reverse = extension := by
    have hall : ∀ c ∈ extension.reverse, (c != '.') = true := by
      intro c hc
      rw [bne_iff_ne]
      rintro rfl
      exact hextension (List.mem_reverse.mp hc)
    rw [List.reverse_append, List.reverse_cons, List.append_assoc,
      List.takeWhile_append_of_pos hall]
    simp
  have hdrop : ((stem ++ '.' :: extension).reverse.drop (extension.length + 1)).reverse = stem := by
    rw [List.reverse_append, List.reverse_cons,
      List.drop_left' (by simp), List.reverse_reverse]
  unfold splitName
  simp only [htake, hdrop]
  rw [if_neg (by simpa using hstem)]

theorem fileName?_of_pieces_eq (h : p.pieces = front ++ [name]) (hname : isName name = true)
    (hup : name ≠ ['.', '.']) : p.fileName? = some name := by
  rw [fileName?_eq_some_iff, components_eq, names_of_pieces_eq h hname, List.map_append,
    ← List.append_assoc, List.map_singleton, List.getLast?_concat, Option.some_inj,
    pieceComponent_eq_normal_iff]
  exact ⟨hup, rfl⟩

theorem components_of_pieces_eq (h : p.pieces = front ++ [name]) (hname : isName name = true) :
    p.components =
      leadComponents p.lead ++ (front.filter isName).map pieceComponent ++
        [pieceComponent name] := by
  rw [components_eq, names_of_pieces_eq h hname, List.map_append, ← List.append_assoc,
    List.map_singleton]

theorem extension?_of_fileName? (h : p.fileName? = some (stem ++ '.' :: extension))
    (hstem : stem ≠ []) (hextension : '.' ∉ extension) : p.extension? = some extension := by
  rw [extension?, h, Option.bind_some, splitName_append hstem hextension]

/-- A path keeps its lead and its other pieces under another last name. -/
theorem replace_last (h : p.pieces = front ++ [name]) (hname : isName name = true)
    {last : List Char} (hlast : isName last = true) (hslash : '/' ∉ last) :
    (ofPieces p.lead (front ++ [last])).lead = p.lead ∧
    (ofPieces p.lead (front ++ [last])).pieces = front ++ [last] := by
  have hfits := (fits_of_pieces_eq h hname).replace_last hname hlast
  have hslashes : ∀ piece ∈ front ++ [last], '/' ∉ piece := by
    intro piece hpiece
    rcases List.mem_append.mp hpiece with hfront | hpiece
    · exact slash_notMem_of_mem_pieces (h ▸ List.mem_append_left [name] hfront)
    · rw [List.mem_singleton] at hpiece
      exact hpiece ▸ hslash
  exact ⟨lead_ofPieces hfits hslashes, pieces_ofPieces hfits hslashes (by simp)⟩

/-- The path whose last piece still has the point before the extension. -/
theorem ofChars_take_eq (h : p.pieces = front ++ [stem ++ '.' :: extension]) :
    ofChars (p.chars.take (p.chars.length - extension.length)) =
      ofPieces p.lead (front ++ [stem ++ ['.']]) := by
  have hp : p.chars = (ofPieces p.lead (front ++ [stem ++ ['.']])).chars ++ extension := by
    rw [chars_ofPieces, List.append_assoc, ← intercalate_append_last, List.append_assoc,
      List.singleton_append, ← h, ← chars_ofPieces, ofPieces_lead_pieces]
  rw [hp, List.take_left' (by simp), ofChars_chars]

/-- A name stays one with a point behind it, and is not the way up. -/
theorem isName_append_point (h : isName name = true) (rest : List Char) :
    isName (name ++ '.' :: rest) = true ∧ name ++ '.' :: rest ≠ ['.', '.'] := by
  obtain ⟨hne, hpoint⟩ := isName_iff.mp h
  rcases name with _ | ⟨c, _ | ⟨d, cs⟩⟩
  · exact absurd rfl hne
  · have hc : c ≠ '.' := fun hc => hpoint (by rw [hc])
    simp [isName, hc]
  · simp [isName]

/-- Taking away an extension leaves the stem of the last name. -/
theorem components_withoutExtension (h : p.pieces = front ++ [stem ++ '.' :: extension])
    (hstem : isName stem = true) (hextension : '.' ∉ extension) :
    p.withoutExtension.components =
      leadComponents p.lead ++ (front.filter isName).map pieceComponent ++
        [pieceComponent stem] := by
  have hne := (isName_iff.mp hstem).1
  obtain ⟨hname, hup⟩ := isName_append_point hstem extension
  obtain ⟨hdotted, hdottedUp⟩ := isName_append_point hstem []
  have hslash : '/' ∉ stem ++ '.' :: extension :=
    slash_notMem_of_mem_pieces (h ▸ List.mem_append_right front (List.mem_singleton_self _))
  have hfile := fileName?_of_pieces_eq h hname hup
  have hcut : p.withoutExtension = (ofPieces p.lead (front ++ [stem ++ ['.']])).cutAtStem := by
    rw [withoutExtension, extension?_of_fileName? hfile hne hextension]
    simp only
    rw [ofChars_take_eq h]
  obtain ⟨hlead, hpieces⟩ := replace_last h hname hdotted (by simp_all)
  have hcutFile := fileName?_of_pieces_eq hpieces hdotted hdottedUp
  rw [hcut, cutAtStem, hcutFile]
  simp only
  rw [splitName_append hne (by simp), hlead, hpieces, trimEnd_append_name hdotted,
    List.dropLast_concat]
  obtain ⟨hlead', hpieces'⟩ := replace_last h hname hstem (by simp_all)
  rw [components_of_pieces_eq hpieces' hstem, hlead']

end Hotspot.Path
