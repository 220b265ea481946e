import Hotspot.Schema.Record
import Mathlib.Tactic

/-!
What a reader of records makes of a document, whatever the format. A map is
read member by member. After some members the slots hold the values of just the
fields whose names have been met; so the order of the members makes no
difference, and members that no field asks for leave no trace.
-/

namespace Hotspot

theorem bind_eq_ok {ε α β : Type} {x : Except ε α} {f : α → Except ε β} {b : β} :
    (x >>= f) = .ok b ↔ ∃ a, x = .ok a ∧ f a = .ok b := by
  cases x <;> simp [bind, Except.bind]

/-- No known name is written more than once. -/
def Once (known written : List String) : Prop := (written.filter (· ∈ known)).Nodup

instance (known written : List String) : Decidable (Once known written) :=
  inferInstanceAs (Decidable (written.filter (· ∈ known)).Nodup)

/-- What members say about one name: all that have it are of some form, and if
there is none the default is meant. -/
structure Member {δ : Type} (members : List (String × δ)) (name : String) (form : δ → Prop)
    (isDefault : Prop) : Prop where
  present : ∀ d, (name, d) ∈ members → form d
  missing : name ∉ members.map Prod.fst → isDefault

variable {δ α : Type} {fs : List (Field δ)} {values : Values fs} {members rest : List (String × δ)}
  {met : List String} {name : String} {d : δ}

def fieldNames (fs : List (Field δ)) : List String := fs.map Field.name

/-- The members are read as the values. -/
def Values.ReadFrom (members : List (String × δ)) : (fs : List (Field δ)) → Values fs → Prop
  | [], _ => True
  | f :: fs, (value, values) =>
    Member members f.name (fun d => f.read d = .ok value) (f.absent = some value) ∧
      ReadFrom members fs values

namespace Slots

/-- The values of the fields whose names have been met. -/
def filled : (fs : List (Field δ)) → Values fs → List String → Slots fs
  | [], _, _ => ()
  | f :: fs, (value, values), met =>
    (if f.name ∈ met then some value else none, filled fs values met)

theorem filled_nil : (fs : List (Field δ)) → (values : Values fs) → filled fs values [] = empty fs
  | [], _ => rfl
  | f :: fs, (value, values) => by rw [filled, filled_nil fs values]; rfl

/-- A name that no field has fills no slot. -/
theorem filled_cons_of_unknown (h : name ∉ fieldNames fs) :
    filled fs values (name :: met) = filled fs values met := by
  induction fs with
  | nil => rfl
  | cons f fs ih =>
    obtain ⟨value, values⟩ := values
    simp only [fieldNames, List.map_cons, List.mem_cons, not_or] at h
    simp only [filled, List.mem_cons, Ne.symm h.1, false_or, ih h.2]
    rfl

theorem put?_head {f : Field δ} {value : f.Value} (slots : Slots fs)
    (hread : f.read d = .ok value) :
    put? (f :: fs) (none, slots) f.name d = .ok (some (some value, slots)) := by
  have hput : put? (f :: fs) (none, slots) f.name d =
      (do return some (some (← f.read d), slots)) := if_pos rfl
  rw [hput, hread]
  rfl

theorem put?_tail {f : Field δ} (slot : Option f.Value) {slots : Slots fs}
    {result : Option (Slots fs)} (hname : f.name ≠ name)
    (h : put? fs slots name d = .ok result) :
    put? (f :: fs) (slot, slots) name d = .ok (result.map fun slots => (slot, slots)) := by
  have hput : put? (f :: fs) (slot, slots) name d =
      (do return (← put? fs slots name d).map fun slots => (slot, slots)) := if_neg hname
  rw [hput, h]
  rfl

theorem put?_of_unknown (h : name ∉ fieldNames fs) (slots : Slots fs) :
    put? fs slots name d = .ok none := by
  induction fs with
  | nil => rfl
  | cons f fs ih =>
    obtain ⟨slot, slots⟩ := slots
    simp only [fieldNames, List.map_cons, List.mem_cons, not_or] at h
    exact put?_tail slot (Ne.symm h.1) (ih h.2 slots)

/-- A member of a known name fills the slot of its field. -/
theorem put?_filled (hnames : (fieldNames fs).Nodup) (hread : values.ReadFrom members fs)
    (hmember : (name, d) ∈ members) (hknown : name ∈ fieldNames fs) (hmet : name ∉ met) :
    put? fs (filled fs values met) name d = .ok (some (filled fs values (name :: met))) := by
  induction fs with
  | nil => cases hknown
  | cons f fs ih =>
    obtain ⟨value, values⟩ := values
    obtain ⟨hfield, hfields⟩ := hread
    obtain ⟨hfirst, hothers⟩ := List.nodup_cons.mp hnames
    by_cases hname : f.name = name
    · subst hname
      have hrest : filled fs values (f.name :: met) = filled fs values met :=
        filled_cons_of_unknown hfirst
      simp only [filled, if_neg hmet, if_pos List.mem_cons_self, hrest]
      exact put?_head _ (hfield.present d hmember)
    · have hrest : name ∈ fieldNames fs := (List.mem_cons.mp hknown).resolve_left (Ne.symm hname)
      simp only [filled, List.mem_cons, hname, false_or]
      exact put?_tail _ hname (ih hothers hfields hrest)

theorem finish_filled (hread : values.ReadFrom members fs)
    (hmet : ∀ name, name ∈ met ↔ name ∈ members.map Prod.fst) :
    finish fs (filled fs values met) = .ok values := by
  induction fs with
  | nil => rfl
  | cons f fs ih =>
    obtain ⟨value, values⟩ := values
    obtain ⟨hfield, hfields⟩ := hread
    have hslot : (if f.name ∈ met then some value else none).or f.absent = some value := by
      by_cases h : f.name ∈ met
      · rw [if_pos h, Option.some_or]
      · rw [if_neg h, Option.none_or]
        exact hfield.missing ((hmet f.name).not.mp h)
    simp only [filled, finish, hslot, ih hfields]
    rfl

end Slots

/-- The only member of a known name. -/
theorem Once.unique {known : List String} (h : Once known (members.map Prod.fst)) {d' : δ}
    (hknown : name ∈ known) (hd : (name, d) ∈ members) (hd' : (name, d') ∈ members) : d' = d := by
  induction members with
  | nil => cases hd
  | cons m members ih =>
    have hfirst {d : δ} (hd : (name, d) ∈ members) : m.1 ≠ name := by
      rintro rfl
      rw [Once, List.map_cons, List.filter_cons_of_pos (by simpa using hknown)] at h
      refine (List.nodup_cons.mp h).1 (List.mem_filter.mpr ⟨?_, by simpa using hknown⟩)
      exact List.mem_map.mpr ⟨(m.1, d), hd, rfl⟩
    have hrest : Once known (members.map Prod.fst) :=
      h.sublist ((List.sublist_cons_self _ _).filter _)
    rcases List.mem_cons.mp hd with rfl | htail
    · rcases List.mem_cons.mp hd' with heq | htail'
      · exact congrArg Prod.snd heq
      · exact absurd rfl (hfirst htail')
    · rcases List.mem_cons.mp hd' with rfl | htail'
      · exact absurd rfl (hfirst htail)
      · exact ih hrest htail htail'

/-- A member that is written stands for all members of its name. -/
theorem Member.of_mem {known : List String} {form : δ → Prop} {isDefault : Prop}
    (honce : Once known (members.map Prod.fst)) (hknown : name ∈ known)
    (hd : (name, d) ∈ members) (h : form d) : Member members name form isDefault where
  present d' hd' := by
    rw [honce.unique hknown hd hd']
    exact h
  missing hmissing := absurd (List.mem_map.mpr ⟨(name, d), hd, rfl⟩) hmissing

/-- Where every form of a member and its default can be read, they are read as
one value. -/
theorem Member.exists_read {known : List String} {form : δ → Prop} {isDefault : Prop}
    (h : Member members name form isDefault) (absent : Option α)
    (honce : Once known (members.map Prod.fst)) (hknown : name ∈ known)
    {read : δ → Except ReadFault α} {good : α → Prop}
    (hform : ∀ d, (name, d) ∈ members → form d → ∃ a, good a ∧ read d = .ok a)
    (hdefault : isDefault → ∃ a, good a ∧ absent = some a) :
    ∃ a, good a ∧ Member members name (fun d => read d = .ok a) (absent = some a) := by
  by_cases hmissing : name ∈ members.map Prod.fst
  · obtain ⟨⟨_, d⟩, hd, rfl⟩ := List.mem_map.mp hmissing
    obtain ⟨a, ha, hread⟩ := hform d hd (h.present d hd)
    refine ⟨a, ha, ?_, fun hnot => absurd hmissing hnot⟩
    intro d' hd'
    rw [honce.unique hknown hd hd']
    exact hread
  · obtain ⟨a, ha, habsent⟩ := hdefault (h.missing hmissing)
    refine ⟨a, ha, ?_, fun _ => habsent⟩
    intro d hd
    exact absurd (List.mem_map.mpr ⟨(name, d), hd, rfl⟩) hmissing

theorem Member.mono {form form' : δ → Prop} {isDefault isDefault' : Prop}
    (h : Member members name form isDefault)
    (hform : ∀ d, (name, d) ∈ members → form d → form' d) (hdefault : isDefault → isDefault') :
    Member members name form' isDefault' :=
  ⟨fun d hd => hform d hd (h.present d hd), fun hmissing => hdefault (h.missing hmissing)⟩

theorem Once.not_met {known written : List String}
    (h : Once known (met.reverse ++ name :: written)) (hknown : name ∈ known) : name ∉ met := by
  intro hmet
  rw [Once, List.filter_append, List.filter_cons_of_pos (by simpa using hknown)] at h
  have hmem : name ∈ met.reverse.filter (· ∈ known) := by simp [hmet, hknown]
  exact (List.nodup_append.mp h).2.2 name hmem name List.mem_cons_self rfl

variable [Document δ]

namespace Slots

/-- One member more has been met. -/
theorem putMember_filled (hnames : (fieldNames fs).Nodup) (hread : values.ReadFrom members fs)
    (hmember : (name, d) ∈ members)
    (hskip : name ∉ fieldNames fs → Document.skip d = .ok ())
    (hmet : name ∈ fieldNames fs → name ∉ met) :
    putMember fs (filled fs values met) (some name, d) = .ok (filled fs values (name :: met)) := by
  by_cases hknown : name ∈ fieldNames fs
  · simp only [putMember, put?_filled hnames hread hmember hknown (hmet hknown)]
    rfl
  · simp only [putMember, put?_of_unknown hknown, filled_cons_of_unknown hknown, bind,
      Except.bind, hskip hknown]
    rfl

/-- All members have been met. -/
theorem foldlM_putMember (hnames : (fieldNames fs).Nodup) (hread : values.ReadFrom members fs)
    (hskip : ∀ m ∈ members, m.1 ∉ fieldNames fs → Document.skip m.2 = .ok ())
    (hrest : ∀ m ∈ rest, m ∈ members)
    (honce : Once (fieldNames fs) (met.reverse ++ rest.map Prod.fst)) :
    (rest.map fun m => (some m.1, m.2)).foldlM (putMember fs) (filled fs values met) =
      .ok (filled fs values ((rest.map Prod.fst).reverse ++ met)) := by
  induction rest generalizing met with
  | nil => rfl
  | cons m rest ih =>
    obtain ⟨hm, hrest⟩ := List.forall_mem_cons.mp hrest
    have hstep := putMember_filled hnames hread hm (hskip m hm) honce.not_met
    have hnext : Once (fieldNames fs) ((m.1 :: met).reverse ++ rest.map Prod.fst) := by
      simpa using honce
    simp only [List.map_cons, List.foldlM_cons, hstep, bind, Except.bind, ih hrest hnext]
    simp

end Slots

/-- A map is read as a record whatever the order of its members and whatever
other members stand among them. -/
theorem Reader.record_of_members {record : String} {build : Values fs → α} {d : δ}
    (hview : Document.view d = .ok (.map (members.map fun m => (some m.1, m.2))))
    (hnames : (fieldNames fs).Nodup) (honce : Once (fieldNames fs) (members.map Prod.fst))
    (hskip : ∀ m ∈ members, m.1 ∉ fieldNames fs → Document.skip m.2 = .ok ())
    (hread : values.ReadFrom members fs) :
    Reader.record record fs build d = .ok (build values) := by
  have hnone : Once (fieldNames fs) ([].reverse ++ members.map Prod.fst) := honce
  have hfold := Slots.foldlM_putMember hnames hread hskip (fun m hm => hm) hnone
  rw [Slots.filled_nil, List.append_nil] at hfold
  have hfinish := Slots.finish_filled hread fun name => List.mem_reverse
  simp only [Reader.record, hview, bind, Except.bind, hfold, hfinish]
  rfl

/-- Only maps and sequences are read as records. -/
theorem Reader.view_of_record {name : String} {fs : List (Field δ)} {build : Values fs → α}
    {d : δ} {a : α} (h : Reader.record name fs build d = .ok a) :
    (∃ members, Document.view d = .ok (.map members)) ∨
      ∃ items, Document.view d = .ok (.sequence items) := by
  obtain ⟨view, hview, h⟩ := bind_eq_ok.mp h
  cases view with
  | map members => exact .inl ⟨members, hview⟩
  | sequence items => exact .inr ⟨items, hview⟩
  | scalar value => cases h

end Hotspot
