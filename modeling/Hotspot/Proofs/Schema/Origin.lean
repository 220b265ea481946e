import Hotspot.Proofs.Schema.Record

/-!
Where the values of a record come from. Whether a record is written as a map or
as a sequence, each of its values was read from some part of the document by
the reader of its field, or is a default of the field. So what holds of all that
the fields yield holds of every record that is read. And a map is read as a
whole: one member that cannot be read is enough to refuse it.
-/

namespace Hotspot

variable {δ α β : Type} {fs : List (Field δ)}

/-- The value can be read as the field, or stands for a part that is missing. -/
inductive Field.Yields (f : Field δ) (value : f.Value) : Prop where
  | read {d : δ} (h : f.read d = .ok value)
  | absent (h : f.absent = some value)
  | omitted (h : f.omitted = some value)

/-- Every value is one that its field yields. -/
def Values.Yielded : (fs : List (Field δ)) → Values fs → Prop
  | [], _ => True
  | f :: fs, (value, values) => f.Yields value ∧ Yielded fs values

namespace Slots

/-- Every value that has been met is one that its field yields. -/
def Yielded : (fs : List (Field δ)) → Slots fs → Prop
  | [], _ => True
  | f :: fs, (slot, slots) => (∀ value, slot = some value → f.Yields value) ∧ Yielded fs slots

theorem yielded_empty : (fs : List (Field δ)) → Yielded fs (empty fs)
  | [] => trivial
  | _ :: fs => ⟨fun _ h => (Option.some_ne_none _ h.symm).elim, yielded_empty fs⟩

variable {slots slots' : Slots fs} {values : Values fs} {name : String} {d : δ}

theorem yielded_put? (hslots : Yielded fs slots) (h : put? fs slots name d = .ok (some slots')) :
    Yielded fs slots' := by
  induction fs with
  | nil => cases h
  | cons f fs ih =>
    obtain ⟨slot, slots⟩ := slots
    obtain ⟨hslot, hrest⟩ := hslots
    by_cases hname : f.name = name
    · cases slot with
      | some value =>
        simp only [put?, if_pos hname] at h
        cases h
      | none =>
        simp only [put?, if_pos hname] at h
        obtain ⟨value, hvalue, h⟩ := bind_eq_ok.mp h
        cases h
        refine ⟨?_, hrest⟩
        rintro _ ⟨⟩
        exact .read hvalue
    · simp only [put?, if_neg hname] at h
      obtain ⟨result, hresult, h⟩ := bind_eq_ok.mp h
      cases result with
      | none => cases h
      | some rest =>
        cases h
        exact ⟨hslot, ih hrest hresult⟩

/-- A member that a field asks for is read by the field. -/
theorem read_of_put? {f : Field δ} {result : Option (Slots fs)} (hnames : (fieldNames fs).Nodup)
    (hf : f ∈ fs) (h : put? fs slots f.name d = .ok result) : ∃ value, f.read d = .ok value := by
  induction fs with
  | nil => cases hf
  | cons g fs ih =>
    obtain ⟨slot, slots⟩ := slots
    obtain ⟨hfirst, hothers⟩ := List.nodup_cons.mp hnames
    rcases List.mem_cons.mp hf with rfl | hf
    · cases slot with
      | some value =>
        simp only [put?, if_pos] at h
        cases h
      | none =>
        simp only [put?, if_pos] at h
        obtain ⟨value, hvalue, -⟩ := bind_eq_ok.mp h
        exact ⟨value, hvalue⟩
    · have hne : g.name ≠ f.name := by
        intro heq
        exact hfirst (List.mem_map.mpr ⟨f, hf, heq.symm⟩)
      simp only [put?, if_neg hne] at h
      obtain ⟨rest, hrest, -⟩ := bind_eq_ok.mp h
      exact ih hothers hf hrest

theorem yielded_finish (hslots : Yielded fs slots) (h : finish fs slots = .ok values) :
    values.Yielded := by
  induction fs with
  | nil => exact trivial
  | cons f fs ih =>
    obtain ⟨slot, slots⟩ := slots
    obtain ⟨hslot, hrest⟩ := hslots
    rw [finish] at h
    cases hvalue : slot.or f.absent with
    | none =>
      rw [hvalue] at h
      cases h
    | some value =>
      simp only [hvalue] at h
      obtain ⟨rest, hfinish, h⟩ := bind_eq_ok.mp h
      cases h
      refine ⟨?_, ih hrest hfinish⟩
      rcases Option.or_eq_some_iff.mp hvalue with hmet | ⟨-, habsent⟩
      · exact hslot value hmet
      · exact .absent habsent

end Slots

theorem Values.yielded_ofItems {record : String} {total place : Nat} {items rest : List δ}
    {values : Values fs} (h : ofItems record total fs place items = .ok (values, rest)) :
    values.Yielded := by
  induction fs generalizing place items with
  | nil => exact trivial
  | cons f fs ih =>
    cases items with
    | nil =>
      rw [ofItems] at h
      cases hvalue : f.omitted with
      | none =>
        rw [hvalue] at h
        cases h
      | some value =>
        simp only [hvalue] at h
        obtain ⟨⟨others, _⟩, hothers, h⟩ := bind_eq_ok.mp h
        cases h
        exact ⟨.omitted hvalue, ih hothers⟩
    | cons item items =>
      rw [ofItems] at h
      obtain ⟨value, hvalue, h⟩ := bind_eq_ok.mp h
      obtain ⟨⟨others, _⟩, hothers, h⟩ := bind_eq_ok.mp h
      cases h
      exact ⟨.read hvalue, ih hothers⟩

/-- What every step of a fold keeps is kept by the fold. -/
theorem foldlM_induction {ε : Type} {step : β → α → Except ε β} {P : β → Prop}
    (hstep : ∀ b a b', P b → step b a = .ok b' → P b') {as : List α} {b b' : β} (hb : P b)
    (h : as.foldlM step b = .ok b') : P b' := by
  induction as generalizing b with
  | nil =>
    cases h
    exact hb
  | cons a as ih =>
    rw [List.foldlM_cons] at h
    obtain ⟨next, hnext, h⟩ := bind_eq_ok.mp h
    exact ih (hstep b a next hb hnext) h

/-- Whatever a fold goes over is taken by one of its steps. -/
theorem exists_of_foldlM {ε : Type} {step : β → α → Except ε β} {as : List α} {b b' : β}
    (h : as.foldlM step b = .ok b') : ∀ a ∈ as, ∃ c c', step c a = .ok c' := by
  induction as generalizing b with
  | nil => simp
  | cons a as ih =>
    rw [List.foldlM_cons] at h
    obtain ⟨next, hnext, h⟩ := bind_eq_ok.mp h
    exact List.forall_mem_cons.mpr ⟨⟨b, next, hnext⟩, ih h⟩

theorem exists_of_mapM {ε : Type} {f : α → Except ε β} {as : List α} {bs : List β}
    (h : as.mapM f = .ok bs) : ∀ a ∈ as, ∃ b, f a = .ok b := by
  induction as generalizing bs with
  | nil => simp
  | cons a as ih =>
    rw [List.mapM_cons] at h
    obtain ⟨b, hb, h⟩ := bind_eq_ok.mp h
    obtain ⟨others, hothers, -⟩ := bind_eq_ok.mp h
    exact List.forall_mem_cons.mpr ⟨⟨b, hb⟩, ih hothers⟩

theorem exists_of_mem_mapM {ε : Type} {f : α → Except ε β} {as : List α} {bs : List β} {b : β}
    (h : as.mapM f = .ok bs) (hb : b ∈ bs) : ∃ a, f a = .ok b := by
  induction as generalizing bs with
  | nil =>
    cases h
    cases hb
  | cons a as ih =>
    rw [List.mapM_cons] at h
    obtain ⟨first, hfirst, h⟩ := bind_eq_ok.mp h
    obtain ⟨others, hothers, h⟩ := bind_eq_ok.mp h
    cases h
    rcases List.mem_cons.mp hb with rfl | hmem
    · exact ⟨a, hfirst⟩
    · exact ih hothers hmem

variable [Document δ] {d : δ} {a : α}

theorem Slots.yielded_putMember {slots slots' : Slots fs} {member : Option String × δ}
    (hslots : Yielded fs slots) (h : putMember fs slots member = .ok slots') :
    Yielded fs slots' := by
  obtain ⟨name, d⟩ := member
  cases name with
  | none => cases h
  | some name =>
    obtain ⟨result, hput, h⟩ := bind_eq_ok.mp h
    cases result with
    | some put =>
      cases h
      exact yielded_put? hslots hput
    | none =>
      obtain ⟨_, -, h⟩ := bind_eq_ok.mp h
      cases h
      exact hslots

/-- A member that is taken has a text for its name. -/
theorem Slots.read_of_putMember {slots slots' : Slots fs} {member : Option String × δ}
    (hnames : (fieldNames fs).Nodup) (h : putMember fs slots member = .ok slots') :
    ∃ name, member.1 = some name ∧
      ∀ f ∈ fs, f.name = name → ∃ value, f.read member.2 = .ok value := by
  obtain ⟨name, d⟩ := member
  cases name with
  | none => cases h
  | some name =>
    refine ⟨name, rfl, ?_⟩
    rintro f hf rfl
    obtain ⟨result, hput, -⟩ := bind_eq_ok.mp h
    exact read_of_put? hnames hf hput

namespace Reader

/-- Every member of a map that is read as a record has a text for its name, and
is read by the field that asks for it. -/
theorem members_of_record {name : String} {members : List (Option String × δ)}
    {build : Values fs → α} (hview : Document.view d = .ok (.map members))
    (hnames : (fieldNames fs).Nodup) (h : Reader.record name fs build d = .ok a) :
    ∀ m ∈ members, ∃ name, m.1 = some name ∧
      ∀ f ∈ fs, f.name = name → ∃ value, f.read m.2 = .ok value := by
  obtain ⟨view, hfound, h⟩ := bind_eq_ok.mp h
  obtain rfl := Except.ok.inj (hview.symm.trans hfound)
  obtain ⟨slots, hslots, -⟩ := bind_eq_ok.mp h
  intro m hm
  obtain ⟨before, behind, hstep⟩ := exists_of_foldlM hslots m hm
  exact Slots.read_of_putMember hnames hstep

/-- A record is built from values that its fields yield. -/
theorem exists_of_record {name : String} {build : Values fs → α}
    (h : Reader.record name fs build d = .ok a) : ∃ values, values.Yielded ∧ a = build values := by
  obtain ⟨view, -, h⟩ := bind_eq_ok.mp h
  cases view with
  | scalar value => cases h
  | map members =>
    obtain ⟨slots, hslots, h⟩ := bind_eq_ok.mp h
    have hyielded := foldlM_induction (fun _ _ _ => Slots.yielded_putMember)
      (Slots.yielded_empty fs) hslots
    cases hfinish : Slots.finish fs slots with
    | error fault =>
      rw [hfinish] at h
      cases h
    | ok values =>
      rw [hfinish] at h
      cases h
      exact ⟨values, Slots.yielded_finish hyielded hfinish, rfl⟩
  | sequence items =>
    obtain ⟨⟨values, rest⟩, hvalues, h⟩ := bind_eq_ok.mp h
    refine ⟨values, Values.yielded_ofItems hvalues, ?_⟩
    dsimp only at h
    split at h
    · cases h
      rfl
    · cases h

theorem of_optional {r : Reader δ α} (h : optional r d = .ok (some a)) : r d = .ok a := by
  obtain ⟨view, -, h⟩ := bind_eq_ok.mp h
  split at h
  · cases h
  · cases hread : r d with
    | error fault =>
      rw [hread] at h
      cases h
    | ok b =>
      rw [hread] at h
      cases h
      rfl

/-- Every entry of a list was read as one. -/
theorem exists_of_mem_list {r : Reader δ α} {as : List α} (h : list r d = .ok as) (ha : a ∈ as) :
    ∃ item, r item = .ok a := by
  obtain ⟨view, -, h⟩ := bind_eq_ok.mp h
  cases view with
  | scalar value => cases h
  | map members => cases h
  | sequence items => exact exists_of_mem_mapM h ha

end Reader

end Hotspot
