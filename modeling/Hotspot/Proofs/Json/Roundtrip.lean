import Hotspot.Proofs.Json.Doubles

/-!
Values that are read back as they were written. A tree represents a value for a
reader if it has a text and the reader makes the value of it; then the reader
makes the value of every text of the tree. Lists and records represent what
their parts represent.
-/

namespace Hotspot.Json

variable {α β : Type} {r : Reader Json α} {a : α} {v : Json} {text : List Char}

/-- The tree can be printed and is read as the value. -/
structure Represents (r : Reader Json α) (v : Json) (a : α) : Prop where
  printable : v.Printable
  read : r v = .ok a

theorem Represents.read_written (h : Represents r v a) (hwritten : Written v text) :
    Json.read r (String.ofList text) = .ok a := by
  rw [read_eq_ok_iff]
  refine ⟨v, ?_, h.read⟩
  rw [String.toList_ofList]
  exact padded_of_written hwritten

theorem Represents.read_compact (h : Represents r v a) :
    Json.read r (String.ofList v.compact) = .ok a :=
  h.read_written (written_compact v h.printable)

theorem represents_string (s : String) : Represents Reader.string (ofString s) s := ⟨rfl, rfl⟩

theorem represents_truth (b : Bool) : Represents Reader.truth (.truth b) b := ⟨trivial, rfl⟩

theorem represents_word32 (w : UInt32) : Represents Reader.word32 (ofNat w.toNat) w :=
  ⟨wellFormed_ofNat _, word32_ofNat w⟩

theorem represents_word64 (w : UInt64) : Represents Reader.word64 (ofNat w.toNat) w := by
  have hword : Reader.natural 0x10000000000000000 .word64 (ofNat w.toNat) = .ok w.toNat :=
    natural_ofNat w.toNat_lt (Nat.le_refl _)
  refine ⟨wellFormed_ofNat _, ?_⟩
  rw [Reader.word64, hword]
  exact congrArg Except.ok UInt64.ofNat_toNat

theorem represents_float {x : Binary64} (h : Exact x) :
    Represents Reader.float (ofBinary64 x) x :=
  ⟨printable_ofBinary64 x, float_ofBinary64 h⟩

theorem represents_optional_string (s : Option String) :
    Represents (Reader.optional Reader.string) (ofOption ofString s) s := by
  refine ⟨?_, optional_string s⟩
  cases s
  · exact trivial
  · exact rfl

theorem represents_optional_float {x : Option Binary64} (h : ∀ y ∈ x, Exact y) :
    Represents (Reader.optional Reader.float) (ofOption ofBinary64 x) x := by
  cases x with
  | none => exact ⟨trivial, rfl⟩
  | some y =>
    have hy := h y rfl
    refine ⟨printable_ofBinary64 y, ?_⟩
    rw [ofOption, ofBinary64, if_pos hy.finite, optional_number hy.moderate,
      numberLayout.nearest_numeral hy.finite]

/-- What has no numeral is read as no value. -/
theorem represents_none_of_not_finite {x : Binary64} (h : x.isFinite = false) :
    Represents (Reader.optional Reader.float) (ofBinary64 x) none := by
  rw [ofBinary64_of_not_finite h]
  exact ⟨trivial, rfl⟩

theorem printableItems_map {f : β → Json} {bs : List β} (h : ∀ b ∈ bs, (f b).Printable) :
    PrintableItems (bs.map f) := by
  induction bs with
  | nil => exact trivial
  | cons b bs ih =>
    obtain ⟨hb, hbs⟩ := List.forall_mem_cons.mp h
    exact ⟨hb, ih hbs⟩

theorem represents_list {f : α → Json} {as : List α} (h : ∀ a ∈ as, Represents r (f a) a) :
    Represents (Reader.list r) (.array (as.map f)) as := by
  refine ⟨printableItems_map fun a ha => (h a ha).printable, list_of_forall ?_⟩
  rw [List.forall₂_map_right_iff, List.forall₂_same]
  exact fun a ha => (h a ha).read

/-- One member for every field, in the order of the fields. -/
def RepresentsFields : (fs : List (Field Json)) → Values fs → List (String × Json) → Prop
  | [], _, members => members = []
  | f :: fs, (value, values), members => ∃ v rest, members = (f.name, v) :: rest ∧
    Represents f.read v value ∧ RepresentsFields fs values rest

section

variable {fs : List (Field Json)} {values : Values fs} {members all : List (String × Json)}

theorem RepresentsFields.names (h : RepresentsFields fs values members) :
    members.map Prod.fst = fieldNames fs := by
  induction fs generalizing members with
  | nil =>
    obtain rfl : members = [] := h
    rfl
  | cons f fs ih =>
    obtain ⟨v, rest, rfl, -, hrest⟩ := h
    rw [List.map_cons, ih hrest]
    rfl

theorem RepresentsFields.printable (h : RepresentsFields fs values members) :
    (record members).Printable := by
  induction fs generalizing members with
  | nil =>
    obtain rfl : members = [] := h
    exact trivial
  | cons f fs ih =>
    obtain ⟨v, rest, rfl, hv, hrest⟩ := h
    exact ⟨rfl, hv.printable, ih hrest⟩

/-- The members stay the only ones of their names among more of them. -/
theorem RepresentsFields.readFrom (h : RepresentsFields fs values members) {known : List String}
    (honce : Once known (all.map Prod.fst)) (hknown : ∀ name ∈ fieldNames fs, name ∈ known)
    (hall : ∀ m ∈ members, m ∈ all) : values.ReadFrom all fs := by
  induction fs generalizing members with
  | nil => exact trivial
  | cons f fs ih =>
    obtain ⟨v, rest, rfl, hv, hrest⟩ := h
    obtain ⟨hfirst, hothers⟩ := List.forall_mem_cons.mp hall
    refine ⟨Member.of_mem honce (hknown f.name List.mem_cons_self) hfirst hv.read, ?_⟩
    exact ih hrest (fun name hname => hknown name (List.mem_cons_of_mem _ hname)) hothers

/-- A record that is written with all its fields represents what they make up. -/
theorem represents_record {name : String} {build : Values fs → α} (values : Values fs)
    (hbuild : build values = a) (hnames : (fieldNames fs).Nodup)
    (h : RepresentsFields fs values members) :
    Represents (Reader.record name fs build) (record members) a := by
  subst hbuild
  have hsound : (record members).sound = true :=
    sound_of_written (written_compact _ h.printable)
  have honce : Once (fieldNames fs) (members.map Prod.fst) := by
    rw [h.names]
    exact hnames.filter _
  refine ⟨h.printable, record_of_members values hsound hnames honce ?_⟩
  exact h.readFrom honce (fun _ hname => hname) fun _ hm => hm

end

end Hotspot.Json
