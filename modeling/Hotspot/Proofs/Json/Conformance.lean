import Hotspot.Json.Document
import Hotspot.Proofs.Json.Numerals
import Hotspot.Proofs.Json.Strings
import Hotspot.Proofs.Schema.Record
import Mathlib.Data.List.TakeWhile

/-!
The parser reads the grammar. Its steps are bounded, so what it accepts is
stated for a bound and proved for the next: with twice the length of a text it
reads every value that the text writes, and whatever it reads, with any bound,
stands in the text as the grammar writes it. For whole documents this is one
equivalence.
-/

namespace Hotspot.Json

variable {fuel : Nat} {c : Char} {cs text before rest inside : List Char} {v : Json}
  {vs : List Json} {ms : List (Option String × Json)} {n : Numeral}

theorem isBlank_iff : isBlank c = true ↔ c = ' ' ∨ c = '\t' ∨ c = '\n' ∨ c = '\r' := by
  simp [isBlank, or_assoc]

theorem blanks_iff : Blanks cs ↔ cs.all isBlank = true := by
  rw [List.all_eq_true]
  exact forall₂_congr fun c _ => isBlank_iff.symm

instance (cs : List Char) : Decidable (Blanks cs) := decidable_of_iff _ blanks_iff.symm

theorem blanks_nil : Blanks [] := by simp [Blanks]

theorem skipBlanks_append (h : Blanks before) (cs : List Char) :
    skipBlanks (before ++ cs) = skipBlanks cs := by
  unfold skipBlanks
  exact List.dropWhile_append_of_pos fun c hc => isBlank_iff.mpr (h c hc)

theorem skipBlanks_cons (h : isBlank c = false) (cs : List Char) :
    skipBlanks (c :: cs) = c :: cs := by
  simp [skipBlanks, h]

theorem skipBlanks_append_cons (h : Blanks before) (hc : isBlank c = false) (cs : List Char) :
    skipBlanks (before ++ c :: cs) = c :: cs := by
  rw [skipBlanks_append h, skipBlanks_cons hc]

theorem blanks_takeWhile (cs : List Char) : Blanks (cs.takeWhile isBlank) :=
  fun c hc => isBlank_iff.mp (List.all_eq_true.mp List.all_takeWhile c hc)

theorem skipBlanks_eq (cs : List Char) : ∃ before, Blanks before ∧ cs = before ++ skipBlanks cs :=
  ⟨cs.takeWhile isBlank, blanks_takeWhile cs, List.takeWhile_append_dropWhile.symm⟩

theorem skipBlanks_skipBlanks (cs : List Char) : skipBlanks (skipBlanks cs) = skipBlanks cs := by
  obtain ⟨before, hbefore, hcs⟩ := skipBlanks_eq cs
  conv_rhs => rw [hcs, skipBlanks_append hbefore]

theorem value_skipBlanks (fuel : Nat) (cs : List Char) :
    value fuel (skipBlanks cs) = value fuel cs := by
  cases fuel with
  | zero => rfl
  | succ fuel => rw [value, value, skipBlanks_skipBlanks]

theorem items_skipBlanks (fuel : Nat) (cs : List Char) :
    items fuel (skipBlanks cs) = items fuel cs := by
  cases fuel with
  | zero => rfl
  | succ fuel => rw [items, items, value_skipBlanks]

theorem members_skipBlanks (fuel : Nat) (cs : List Char) :
    members fuel (skipBlanks cs) = members fuel cs := by
  cases fuel with
  | zero => rfl
  | succ fuel => rw [members, members, skipBlanks_skipBlanks]

theorem value_append_blanks (h : Blanks before) (fuel : Nat) (cs : List Char) :
    value fuel (before ++ cs) = value fuel cs := by
  rw [← value_skipBlanks, skipBlanks_append h, value_skipBlanks]

theorem head_of_writtenNumeral (h : WrittenNumeral n text) :
    ∃ c tail, text = c :: tail ∧ (c = '-' ∨ c.isDigit = true) := by
  obtain @⟨letter, hn, hletter⟩ := h
  obtain ⟨c, ds, hds⟩ := List.exists_cons_of_ne_nil hn.whole.1
  have hc : c.isDigit = true := hn.whole.2 c (by simp [hds])
  unfold Numeral.textWith
  cases n.negative with
  | true => exact ⟨'-', _, rfl, .inl rfl⟩
  | false =>
    rw [hds]
    exact ⟨c, _, rfl, .inr hc⟩

/-- A number starts like no other value. -/
theorem value_numeral (h : WrittenNumeral n text) (hrest : EndsNumber rest) :
    value (fuel + 1) (text ++ rest) = (.number n, some rest) := by
  have hnumeral := numeral_append h hrest
  obtain ⟨c, tail, rfl, hc⟩ := head_of_writtenNumeral h
  have hblank : isBlank c = false := by
    rw [← Bool.not_eq_true, isBlank_iff]
    rintro (rfl | rfl | rfl | rfl) <;> exact absurd hc (by decide)
  rw [List.cons_append] at hnumeral ⊢
  rw [value, skipBlanks_cons hblank]
  split
  case h_7 => rw [hnumeral]
  all_goals
    rename_i heq
    injection heq with hhead
    subst hhead
    exact absurd hc (by decide)

theorem value_quote (fuel : Nat) (cs : List Char) : value (fuel + 1) ('"' :: cs) =
    match stringBody cs with
    | some (content, rest) => (.string content, some rest)
    | none => (.fault, none) := rfl

theorem value_bracket (fuel : Nat) (cs : List Char) : value (fuel + 1) ('[' :: cs) =
    match skipBlanks cs with
    | ']' :: rest => (.array [], some rest)
    | rest => (.array (items fuel rest).1, (items fuel rest).2) := rfl

theorem value_brace (fuel : Nat) (cs : List Char) : value (fuel + 1) ('\x7b' :: cs) =
    match skipBlanks cs with
    | '\x7d' :: rest => (.object [], some rest)
    | rest => (.object (members fuel rest).1, (members fuel rest).2) := rfl

theorem value_array (h : (skipBlanks cs).head? ≠ some ']') :
    value (fuel + 1) ('[' :: cs) = (.array (items fuel cs).1, (items fuel cs).2) := by
  rw [value_bracket, ← items_skipBlanks]
  split
  · simp_all
  · rfl

theorem value_object (h : (skipBlanks cs).head? ≠ some '\x7d') :
    value (fuel + 1) ('\x7b' :: cs) = (.object (members fuel cs).1, (members fuel cs).2) := by
  rw [value_brace, ← members_skipBlanks]
  split
  · simp_all
  · rfl

/-- What is read behind an item. -/
def itemsBehind (fuel : Nat) (v : Json) (rest : List Char) : List Json × Option (List Char) :=
  match skipBlanks rest with
  | ',' :: rest => (v :: (items fuel rest).1, (items fuel rest).2)
  | ']' :: rest => ([v], some rest)
  | _ => ([v, .fault], none)

theorem items_of_value (h : value fuel cs = (v, some rest)) :
    items (fuel + 1) cs = itemsBehind fuel v rest := by
  rw [items, h]
  rfl

theorem itemsBehind_comma {tail : List Char} (h : skipBlanks rest = ',' :: tail) :
    itemsBehind fuel v rest = (v :: (items fuel tail).1, (items fuel tail).2) := by
  simp only [itemsBehind, h]

theorem itemsBehind_bracket {tail : List Char} (h : skipBlanks rest = ']' :: tail) :
    itemsBehind fuel v rest = ([v], some tail) := by
  simp only [itemsBehind, h]

/-- What is read behind a member. -/
def membersBehind (fuel : Nat) (m : Option String × Json) (rest : List Char) :
    List (Option String × Json) × Option (List Char) :=
  match skipBlanks rest with
  | ',' :: rest => (m :: (members fuel rest).1, (members fuel rest).2)
  | '\x7d' :: rest => ([m], some rest)
  | _ => ([m, (none, .fault)], none)

theorem members_of_value {name : Option String} {colon text behind : List Char}
    (hname : stringBody cs = some (name, colon)) (hcolon : skipBlanks colon = ':' :: text)
    (hvalue : value fuel text = (v, some behind)) :
    members (fuel + 1) ('"' :: cs) = membersBehind fuel (name, v) behind := by
  have hquote : skipBlanks ('"' :: cs) = '"' :: cs := skipBlanks_cons (by decide) cs
  simp only [members, hquote, hname, hcolon, hvalue]
  rfl

theorem membersBehind_comma {m : Option String × Json} {tail : List Char}
    (h : skipBlanks rest = ',' :: tail) :
    membersBehind fuel m rest = (m :: (members fuel tail).1, (members fuel tail).2) := by
  simp only [membersBehind, h]

theorem membersBehind_brace {m : Option String × Json} {tail : List Char}
    (h : skipBlanks rest = '\x7d' :: tail) : membersBehind fuel m rest = ([m], some tail) := by
  simp only [membersBehind, h]

/-- No text of a value starts with a blank or with a closing bracket. -/
theorem head_of_written (h : Written v text) :
    ∃ c tail, text = c :: tail ∧ isBlank c = false ∧ c ≠ ']' := by
  cases h with
  | number h =>
    obtain ⟨c, tail, rfl, hc⟩ := head_of_writtenNumeral h
    refine ⟨c, tail, rfl, ?_, ?_⟩
    · rw [← Bool.not_eq_true, isBlank_iff]
      rintro (rfl | rfl | rfl | rfl) <;> exact absurd hc (by decide)
    · rintro rfl
      exact absurd hc (by decide)
  | _ => exact ⟨_, _, rfl, by decide, by decide⟩

theorem head_of_padded (h : Padded v text) (rest : List Char) :
    ∃ c, (skipBlanks (text ++ rest)).head? = some c ∧ c ≠ ']' := by
  obtain ⟨hbefore, hv, -⟩ := h
  obtain ⟨c, tail, rfl, hblank, hc⟩ := head_of_written hv
  refine ⟨c, ?_, hc⟩
  rw [List.append_assoc, List.append_assoc, skipBlanks_append hbefore, List.cons_append,
    skipBlanks_cons hblank]
  rfl

theorem head_of_writtenItems (h : WrittenItems vs text) (rest : List Char) :
    (skipBlanks (text ++ rest)).head? ≠ some ']' := by
  cases h with
  | last hv =>
    obtain ⟨c, hhead, hc⟩ := head_of_padded hv rest
    simpa [hhead] using hc
  | more hv hrest =>
    rw [List.append_assoc]
    obtain ⟨c, hhead, hc⟩ := head_of_padded hv _
    rw [hhead]
    simpa using hc

theorem head_of_writtenMember {m : Option String × Json} (h : WrittenMember m text)
    (rest : List Char) : (skipBlanks (text ++ rest)).head? = some '"' := by
  obtain ⟨hbefore, -, -, -⟩ := h
  rw [List.append_assoc, skipBlanks_append hbefore]
  rfl

theorem head_of_writtenMembers (h : WrittenMembers ms text) (rest : List Char) :
    (skipBlanks (text ++ rest)).head? ≠ some '\x7d' := by
  cases h with
  | last hm => simp [head_of_writtenMember hm rest]
  | more hm hrest =>
    rw [List.append_assoc, head_of_writtenMember hm]
    decide

theorem endsNumber_nil : EndsNumber [] := by rintro c ⟨⟩

theorem endsNumber_append (h : Blanks before) (hrest : EndsNumber rest) :
    EndsNumber (before ++ rest) := by
  cases before with
  | nil => exact hrest
  | cons c before =>
    rintro d ⟨⟩
    rcases h c (by simp) with rfl | rfl | rfl | rfl <;> decide

theorem endsNumber_cons (hc : c = ',' ∨ c = ']' ∨ c = '\x7d') (rest : List Char) :
    EndsNumber (c :: rest) := by
  rintro d ⟨⟩
  rcases hc with rfl | rfl | rfl <;> decide

/-- With this bound the parser reads all that the grammar writes in so much
text. -/
structure Accepts (fuel : Nat) : Prop where
  value : ∀ {v text rest}, Written v text → 2 * text.length ≤ fuel →
    ((∃ n, v = .number n) → EndsNumber rest) → Json.value fuel (text ++ rest) = (v, some rest)
  items : ∀ {vs text}, WrittenItems vs text → 2 * text.length + 1 ≤ fuel →
    ∀ rest, Json.items fuel (text ++ ']' :: rest) = (vs, some rest)
  members : ∀ {ms text}, WrittenMembers ms text → 2 * text.length + 1 ≤ fuel →
    ∀ rest, Json.members fuel (text ++ '\x7d' :: rest) = (ms, some rest)

theorem length_pos_of_written (h : Written v text) : 0 < text.length := by
  obtain ⟨c, tail, rfl, -⟩ := head_of_written h
  simp

namespace Accepts

theorem padded (h : Accepts fuel) (hv : Padded v text) (hfuel : 2 * text.length ≤ fuel)
    (hrest : EndsNumber rest) :
    ∃ behind, Blanks behind ∧ Json.value fuel (text ++ rest) = (v, some (behind ++ rest)) := by
  obtain @⟨_, before, text, behind, hbefore, hv, hbehind⟩ := hv
  simp only [List.length_append] at hfuel
  refine ⟨behind, hbehind, ?_⟩
  rw [List.append_assoc, List.append_assoc, value_append_blanks hbefore]
  exact h.value hv (by omega) fun _ => endsNumber_append hbehind hrest

/-- One item is read, whatever comes next. -/
theorem item (h : Accepts fuel) (hv : Padded v text) (hfuel : 2 * text.length ≤ fuel)
    (hrest : EndsNumber rest) :
    ∃ behind, Blanks behind ∧
      Json.items (fuel + 1) (text ++ rest) = itemsBehind fuel v (behind ++ rest) := by
  obtain ⟨behind, hbehind, hvalue⟩ := h.padded hv hfuel hrest
  exact ⟨behind, hbehind, items_of_value hvalue⟩

/-- One member is read, whatever comes next. -/
theorem member (h : Accepts fuel) {m : Option String × Json} (hm : WrittenMember m text)
    (hfuel : 2 * text.length ≤ fuel) (hrest : EndsNumber rest) :
    ∃ behind, Blanks behind ∧
      Json.members (fuel + 1) (text ++ rest) = membersBehind fuel m (behind ++ rest) := by
  obtain @⟨name, v, before, body, colon, text, hbefore, hname, hcolon, hv⟩ := hm
  simp only [List.length_append, List.length_cons] at hfuel
  obtain ⟨behind, hbehind, hvalue⟩ := h.padded hv (by omega) hrest
  have hstring := stringBody_append hname (colon ++ ':' :: (text ++ rest))
  refine ⟨behind, hbehind, ?_⟩
  simp only [List.append_assoc, List.cons_append]
  rw [← members_skipBlanks, skipBlanks_append_cons hbefore (by decide),
    members_of_value hstring (skipBlanks_append_cons hcolon (by decide) _) hvalue]

theorem value_succ (h : Accepts fuel) (hv : Written v text) (hfuel : 2 * text.length ≤ fuel + 1)
    (hrest : (∃ n, v = .number n) → EndsNumber rest) :
    Json.value (fuel + 1) (text ++ rest) = (v, some rest) := by
  cases hv with
  | null => rfl
  | true => rfl
  | false => rfl
  | number hn => exact value_numeral hn (hrest ⟨_, rfl⟩)
  | string hs =>
    rw [List.cons_append, List.append_assoc, value_quote, List.singleton_append,
      stringBody_append hs]
  | emptyArray hinside =>
    rw [List.cons_append, List.append_assoc, value_bracket, skipBlanks_append hinside]
    rfl
  | array hitems =>
    simp only [List.length_cons, List.length_append] at hfuel
    rw [List.cons_append, List.append_assoc, value_array (head_of_writtenItems hitems _),
      List.singleton_append, h.items hitems (by omega)]
  | emptyObject hinside =>
    rw [List.cons_append, List.append_assoc, value_brace, skipBlanks_append hinside]
    rfl
  | object hmembers =>
    simp only [List.length_cons, List.length_append] at hfuel
    rw [List.cons_append, List.append_assoc, value_object (head_of_writtenMembers hmembers _),
      List.singleton_append, h.members hmembers (by omega)]

theorem items_succ (h : Accepts fuel) (hvs : WrittenItems vs text)
    (hfuel : 2 * text.length + 1 ≤ fuel + 1) (rest : List Char) :
    Json.items (fuel + 1) (text ++ ']' :: rest) = (vs, some rest) := by
  cases hvs with
  | last hv =>
    obtain ⟨behind, hbehind, hitems⟩ :=
      h.item hv (by omega) (endsNumber_cons (.inr (.inl rfl)) rest)
    rw [hitems, itemsBehind_bracket (skipBlanks_append_cons hbehind (by decide) rest)]
  | @more v vs text others hv hvs =>
    simp only [List.length_append, List.length_cons] at hfuel
    obtain ⟨behind, hbehind, hitems⟩ :=
      h.item hv (by omega) (endsNumber_cons (.inl rfl) (others ++ ']' :: rest))
    rw [List.append_assoc, List.cons_append, hitems,
      itemsBehind_comma (skipBlanks_append_cons hbehind (by decide) _), h.items hvs (by omega)]

theorem members_succ (h : Accepts fuel) (hms : WrittenMembers ms text)
    (hfuel : 2 * text.length + 1 ≤ fuel + 1) (rest : List Char) :
    Json.members (fuel + 1) (text ++ '\x7d' :: rest) = (ms, some rest) := by
  cases hms with
  | last hm =>
    obtain ⟨behind, hbehind, hmembers⟩ :=
      h.member hm (by omega) (endsNumber_cons (.inr (.inr rfl)) rest)
    rw [hmembers, membersBehind_brace (skipBlanks_append_cons hbehind (by decide) rest)]
  | @more m ms text others hm hms =>
    simp only [List.length_append, List.length_cons] at hfuel
    obtain ⟨behind, hbehind, hmembers⟩ :=
      h.member hm (by omega) (endsNumber_cons (.inl rfl) (others ++ '\x7d' :: rest))
    rw [List.append_assoc, List.cons_append, hmembers,
      membersBehind_comma (skipBlanks_append_cons hbehind (by decide) _),
      h.members hms (by omega)]

end Accepts

theorem accepts (fuel : Nat) : Accepts fuel := by
  induction fuel with
  | zero =>
    refine ⟨?_, fun _ hfuel => by omega, fun _ hfuel => by omega⟩
    intro v text rest hv hfuel
    have := length_pos_of_written hv
    omega
  | succ fuel ih => exact ⟨ih.value_succ, ih.items_succ, ih.members_succ⟩

/-- Whatever the parser reads within this bound stands in the text as the
grammar writes it. -/
structure Faithful (fuel : Nat) : Prop where
  value : ∀ {cs v rest}, Json.value fuel cs = (v, some rest) →
    ∃ before text, Blanks before ∧ Written v text ∧ cs = before ++ text ++ rest
  items : ∀ {cs vs rest}, Json.items fuel cs = (vs, some rest) →
    ∃ text, WrittenItems vs text ∧ cs = text ++ ']' :: rest
  members : ∀ {cs ms rest}, Json.members fuel cs = (ms, some rest) →
    ∃ text, WrittenMembers ms text ∧ cs = text ++ '\x7d' :: rest

namespace Faithful

theorem value_succ (h : Faithful fuel) (hvalue : Json.value (fuel + 1) cs = (v, some rest)) :
    ∃ before text, Blanks before ∧ Written v text ∧ cs = before ++ text ++ rest := by
  obtain ⟨before, hbefore, hcs⟩ := skipBlanks_eq cs
  suffices htext : ∃ text, Written v text ∧ skipBlanks cs = text ++ rest by
    obtain ⟨text, hv, htext⟩ := htext
    exact ⟨before, text, hbefore, hv, by rw [hcs, htext, List.append_assoc]⟩
  rw [Json.value] at hvalue
  split at hvalue
  · cases hvalue
    exact ⟨_, .null, by assumption⟩
  · cases hvalue
    exact ⟨_, .true, by assumption⟩
  · cases hvalue
    exact ⟨_, .false, by assumption⟩
  · rename_i tail hquote
    split at hvalue
    · rename_i content behind hstring
      cases hvalue
      obtain ⟨body, rfl, hbody⟩ := writtenString_of_stringBody hstring
      exact ⟨_, .string hbody, by simp [hquote]⟩
    · cases hvalue
  · rename_i tail hbracket
    split at hvalue
    · rename_i behind hclose
      cases hvalue
      obtain ⟨inside, hinside, htail⟩ := skipBlanks_eq tail
      exact ⟨_, .emptyArray hinside, by rw [hbracket, htail, hclose]; simp⟩
    · rw [items_skipBlanks] at hvalue
      cases hitems : Json.items fuel tail with
      | mk vs behind =>
        rw [hitems] at hvalue
        cases hvalue
        obtain ⟨inside, hinside, rfl⟩ := h.items hitems
        exact ⟨_, .array hinside, by simp [hbracket]⟩
  · rename_i tail hbrace
    split at hvalue
    · rename_i behind hclose
      cases hvalue
      obtain ⟨inside, hinside, htail⟩ := skipBlanks_eq tail
      exact ⟨_, .emptyObject hinside, by rw [hbrace, htail, hclose]; simp⟩
    · rw [members_skipBlanks] at hvalue
      cases hmembers : Json.members fuel tail with
      | mk ms behind =>
        rw [hmembers] at hvalue
        cases hvalue
        obtain ⟨inside, hinside, rfl⟩ := h.members hmembers
        exact ⟨_, .object hinside, by simp [hbrace]⟩
  · split at hvalue
    · rename_i n behind hnumeral
      cases hvalue
      obtain ⟨text, htext, hn⟩ := writtenNumeral_of_numeral hnumeral
      exact ⟨text, .number hn, htext⟩
    · cases hvalue

/-- A value and the blanks behind it. -/
theorem padded (h : Faithful fuel) {next : List Char}
    (hvalue : Json.value fuel cs = (v, some rest)) (hnext : skipBlanks rest = next) :
    ∃ text, Padded v text ∧ cs = text ++ next := by
  obtain ⟨before, text, hbefore, hv, rfl⟩ := h.value hvalue
  obtain ⟨behind, hbehind, hrest⟩ := skipBlanks_eq rest
  exact ⟨_, .mk hbefore hv hbehind, by rw [hrest, hnext]; simp⟩

theorem items_succ (h : Faithful fuel) (hitems : Json.items (fuel + 1) cs = (vs, some rest)) :
    ∃ text, WrittenItems vs text ∧ cs = text ++ ']' :: rest := by
  rw [Json.items] at hitems
  split at hitems
  · cases hitems
  · rename_i v behind hvalue
    split at hitems
    · rename_i tail hcomma
      obtain ⟨text, htext, rfl⟩ := h.padded hvalue hcomma
      cases hmore : Json.items fuel tail with
      | mk more behind =>
        rw [hmore] at hitems
        cases hitems
        obtain ⟨others, hothers, rfl⟩ := h.items hmore
        exact ⟨_, .more htext hothers, by simp⟩
    · rename_i tail hclose
      obtain ⟨text, htext, rfl⟩ := h.padded hvalue hclose
      cases hitems
      exact ⟨_, .last htext, rfl⟩
    · cases hitems

theorem members_succ (h : Faithful fuel)
    (hmembers : Json.members (fuel + 1) cs = (ms, some rest)) :
    ∃ text, WrittenMembers ms text ∧ cs = text ++ '\x7d' :: rest := by
  obtain ⟨before, hbefore, hcs⟩ := skipBlanks_eq cs
  rw [Json.members] at hmembers
  split at hmembers
  · rename_i tail hquote
    split at hmembers
    · cases hmembers
    · rename_i name behindName hstring
      obtain ⟨body, rfl, hname⟩ := writtenString_of_stringBody hstring
      obtain ⟨behind, hbehind, hbehindName⟩ := skipBlanks_eq behindName
      split at hmembers
      · rename_i tail hcolon
        rw [hcs, hquote, hbehindName, hcolon]
        split at hmembers
        · cases hmembers
        · rename_i v behindValue hvalue
          split at hmembers
          · rename_i tail hcomma
            obtain ⟨text, htext, rfl⟩ := h.padded hvalue hcomma
            cases hmore : Json.members fuel tail with
            | mk more behindMore =>
              rw [hmore] at hmembers
              cases hmembers
              obtain ⟨others, hothers, rfl⟩ := h.members hmore
              exact ⟨_, .more (.mk hbefore hname hbehind htext) hothers, by simp⟩
          · rename_i tail hclose
            obtain ⟨text, htext, rfl⟩ := h.padded hvalue hclose
            cases hmembers
            exact ⟨_, .last (.mk hbefore hname hbehind htext), by simp⟩
          · cases hmembers
      · cases hmembers
  · cases hmembers

end Faithful

theorem faithful (fuel : Nat) : Faithful fuel := by
  induction fuel with
  | zero =>
    refine ⟨?_, ?_, ?_⟩ <;> intro cs _ rest h
    · rw [value] at h
      cases h
    · rw [items] at h
      cases h
    · rw [members] at h
      cases h
  | succ fuel ih => exact ⟨ih.value_succ, ih.items_succ, ih.members_succ⟩

theorem skipBlanks_eq_nil : skipBlanks cs = [] ↔ Blanks cs := by
  unfold skipBlanks Blanks
  rw [List.dropWhile_eq_nil_iff]
  exact forall₂_congr fun c _ => isBlank_iff

/-- The parser accepts exactly the documents of the grammar, and returns the
tree that the document writes. -/
theorem parse_eq_iff : parse cs = (v, true) ↔ Padded v cs := by
  constructor
  · intro h
    unfold parse at h
    split at h
    · rename_i v' rest hvalue
      simp only [Prod.mk.injEq, List.isEmpty_iff] at h
      obtain ⟨rfl, hrest⟩ := h
      obtain ⟨text, htext, rfl⟩ := (faithful _).padded hvalue hrest
      simpa using htext
    · cases h
  · intro h
    obtain ⟨behind, hbehind, hvalue⟩ :=
      (accepts _).padded h (Nat.le_add_right _ 2) endsNumber_nil
    rw [List.append_nil] at hvalue
    simp [parse, hvalue, skipBlanks_eq_nil.mpr hbehind]

/-- What is read from a text is read from the one value that it writes. -/
theorem read_eq_ok_iff {α : Type} {r : Reader Json α} {text : String} {a : α} :
    read r text = .ok a ↔ ∃ v, Padded v text.toList ∧ r v = .ok a := by
  simp only [← parse_eq_iff, read]
  obtain ⟨v, complete⟩ := parse text.toList
  simp only [bind_eq_ok, Prod.mk.injEq]
  constructor
  · rintro ⟨b, hb, h⟩
    cases complete <;> cases h
    exact ⟨v, ⟨rfl, rfl⟩, hb⟩
  · rintro ⟨_, ⟨rfl, rfl⟩, hv⟩
    exact ⟨a, hv, rfl⟩

end Hotspot.Json
