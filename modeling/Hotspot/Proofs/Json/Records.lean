import Hotspot.Proofs.Json.Conformance
import Hotspot.Proofs.Json.Literals

/-!
Parts of documents as readers see them. What the grammar writes has no faults,
so anything in it can be passed over; what is left to a reader of records are
the members it asks for.
-/

namespace Hotspot.Json

variable {α : Type} {v : Json} {text : List Char}

mutual

/-- What the grammar writes has no faults. -/
theorem sound_of_written {v : Json} {text : List Char} : Written v text → v.sound = true
  | .null => rfl
  | .true => rfl
  | .false => rfl
  | .number _ => rfl
  | .string _ => rfl
  | .emptyArray _ => rfl
  | .array h => soundItems_of_written h
  | .emptyObject _ => rfl
  | .object h => soundMembers_of_written h

theorem sound_of_padded {v : Json} {text : List Char} : Padded v text → v.sound = true
  | .mk _ h _ => sound_of_written h

theorem soundItems_of_written {vs : List Json} {text : List Char} :
    WrittenItems vs text → soundItems vs = true
  | .last h => by rw [soundItems, sound_of_padded h]; rfl
  | .more h hrest => by
    rw [soundItems, sound_of_padded h, soundItems_of_written hrest]
    rfl

theorem sound_of_writtenMember {m : Option String × Json} {text : List Char} :
    WrittenMember m text → m.2.sound = true
  | .mk _ _ _ h => sound_of_padded h

theorem soundMembers_of_written {ms : List (Option String × Json)} {text : List Char} :
    WrittenMembers ms text → soundMembers ms = true
  | .last h => by rw [soundMembers, sound_of_writtenMember h]; rfl
  | .more h hrest => by
    rw [soundMembers, sound_of_writtenMember h, soundMembers_of_written hrest]
    rfl

end

theorem sound_of_mem_items {items : List Json} (h : (Json.array items).sound = true) :
    ∀ item ∈ items, item.sound = true := by
  rw [sound] at h
  induction items with
  | nil => simp
  | cons item items ih =>
    rw [soundItems, Bool.and_eq_true] at h
    exact List.forall_mem_cons.mpr ⟨h.1, ih h.2⟩

theorem sound_of_mem_members {members : List (String × Json)}
    (h : (Json.record members).sound = true) : ∀ m ∈ members, m.2.sound = true := by
  rw [record, sound] at h
  induction members with
  | nil => simp
  | cons m members ih =>
    rw [List.map_cons, soundMembers, Bool.and_eq_true] at h
    exact List.forall_mem_cons.mpr ⟨h.1, ih h.2⟩

/-- An object is read as a record whatever the order of its members and
whatever other members stand among them. -/
theorem record_of_members {name : String} {fs : List (Field Json)} {build : Values fs → α}
    {members : List (String × Json)} (values : Values fs)
    (hsound : (Json.record members).sound = true) (hnames : (fieldNames fs).Nodup)
    (honce : Once (fieldNames fs) (members.map Prod.fst)) (hread : values.ReadFrom members fs) :
    Reader.record name fs build (Json.record members) = .ok (build values) := by
  refine Reader.record_of_members rfl hnames honce ?_ hread
  intro m hm _
  exact if_pos (sound_of_mem_members hsound m hm)

theorem view_ofNat {n : Nat} (h : n < Significand.wordBound) :
    view (.ofNat n) = .ok (.scalar (.integer n)) := by
  have hdigits : Decimal.ofDigits (Decimal.digits n) = n :=
    Nat.ofDigitChars_toDigits (by decide) (by decide)
  have hvalue : numberValue? (.ofNat n) = some (.integer n) := by
    simp [numberValue?, Numeral.ofNat, hdigits, h]
  simp only [view, ofNat, hvalue]

theorem natural_ofNat {n bound : Nat} {expected : Expected} (h : n < bound)
    (hbound : bound ≤ Significand.wordBound) :
    Reader.natural bound expected (Json.ofNat n) = .ok n := by
  have hrange : (0 : Int) ≤ n ∧ (n : Int) < bound := by omega
  simp only [Reader.natural, Document.view, view_ofNat (h.trans_le hbound), bind, Except.bind,
    if_pos hrange]
  rfl

theorem word32_ofNat (w : UInt32) : Reader.word32 (Json.ofNat w.toNat) = .ok w := by
  have hword : Reader.natural 0x100000000 .word32 (Json.ofNat w.toNat) = .ok w.toNat :=
    natural_ofNat w.toNat_lt (by decide)
  rw [Reader.word32, hword]
  exact congrArg Except.ok UInt32.ofNat_toNat

theorem size_ofNat {n : Nat} (h : n < 2 ^ 64) : Reader.size (Json.ofNat n) = .ok n :=
  natural_ofNat h (Nat.le_refl _)

/-- Only null is read as no value. -/
theorem optional_some {r : Reader Json α} {a : α} {shown : View Json} (hview : view v = .ok shown)
    (hnull : shown ≠ .scalar .null) (hread : r v = .ok a) :
    Reader.optional r v = .ok (some a) := by
  simp only [Reader.optional, Document.view, hview, bind, Except.bind, hread]
  rfl

theorem numberValue?_ne_null (n : Numeral) : numberValue? n ≠ some .null := by
  unfold numberValue?
  dsimp only
  split_ifs <;> simp

theorem optional_number {n : Numeral} (h : n.Moderate) :
    Reader.optional Reader.float (.number n : Json) = .ok (some n.nearest) := by
  have hread := float_number h
  cases hvalue : numberValue? n with
  | none => simp [Reader.float, Document.view, view, hvalue, bind, Except.bind] at hread
  | some found =>
    have hview : view (.number n) = .ok (.scalar found) := by simp only [view, hvalue]
    refine optional_some hview ?_ hread
    rintro ⟨⟩
    exact numberValue?_ne_null n hvalue

theorem optional_string (s : Option String) :
    Reader.optional Reader.string (.ofOption .ofString s : Json) = .ok s := by
  cases s <;> rfl

theorem optional_size {n : Nat} (h : n < 2 ^ 64) :
    Reader.optional Reader.size (.ofNat n : Json) = .ok (some n) :=
  optional_some (view_ofNat h) (by simp) (size_ofNat h)

theorem optional_record {r : Reader Json α} {members : List (String × Json)} {a : α}
    (h : r (.record members) = .ok a) :
    Reader.optional r (.record members) = .ok (some a) :=
  optional_some rfl (by simp) h

theorem list_of_forall {r : Reader Json α} {as : List α} {items : List Json}
    (h : List.Forall₂ (fun a item => r item = .ok a) as items) :
    Reader.list r (.array items) = .ok as := by
  have hmap : items.mapM r = .ok as := by
    induction h with
    | nil => rfl
    | cons hitem _ ih => rw [List.mapM_cons, hitem, ih]; rfl
  exact hmap

end Hotspot.Json
