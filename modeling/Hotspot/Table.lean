/-!
Tables from keys to values. A key stands once; entries keep the order in which
their keys were first put.
-/

namespace Hotspot

structure Table (κ α : Type) where
  entries : List (κ × α)
  nodup : (entries.map Prod.fst).Nodup
deriving DecidableEq

namespace Table

variable {κ α : Type}

def empty : Table κ α := ⟨[], List.nodup_nil⟩

instance : Inhabited (Table κ α) := ⟨empty⟩

def isEmpty (t : Table κ α) : Bool := t.entries.isEmpty

def size (t : Table κ α) : Nat := t.entries.length

def values (t : Table κ α) : List α := t.entries.map Prod.snd

/-- Keeps the entries whose key passes the test. -/
def filterKeys (t : Table κ α) (keep : κ → Bool) : Table κ α where
  entries := t.entries.filter fun entry => keep entry.1
  nodup := t.nodup.sublist (List.filter_sublist.map Prod.fst)

variable [DecidableEq κ]

def get? (t : Table κ α) (key : κ) : Option α := t.entries.lookup key

/-- Puts the value in the place of `key`, or behind all entries. -/
def putEntry (key : κ) (value : α) : List (κ × α) → List (κ × α)
  | [] => [(key, value)]
  | entry :: rest =>
    if entry.1 = key then (key, value) :: rest
    else entry :: putEntry key value rest

theorem mem_keys_putEntry (key other : κ) (value : α) (entries : List (κ × α)) :
    other ∈ (putEntry key value entries).map Prod.fst ↔
      other = key ∨ other ∈ entries.map Prod.fst := by
  induction entries with
  | nil => simp [putEntry]
  | cons entry rest ih =>
    by_cases h : entry.1 = key
    · subst h
      simp [putEntry]
    · simp only [putEntry, h, if_false, List.map_cons, List.mem_cons, ih]
      constructor
      · rintro (h | h | h)
        · exact .inr (.inl h)
        · exact .inl h
        · exact .inr (.inr h)
      · rintro (h | h | h)
        · exact .inr (.inl h)
        · exact .inl h
        · exact .inr (.inr h)

theorem nodup_keys_putEntry (key : κ) (value : α) (entries : List (κ × α))
    (h : (entries.map Prod.fst).Nodup) : ((putEntry key value entries).map Prod.fst).Nodup := by
  induction entries with
  | nil => simp [putEntry]
  | cons entry rest ih =>
    simp only [List.map_cons, List.nodup_cons] at h
    by_cases hkey : entry.1 = key
    · subst hkey
      simpa [putEntry] using h
    · simp only [putEntry, hkey, if_false, List.map_cons, List.nodup_cons]
      refine ⟨?_, ih h.2⟩
      rw [mem_keys_putEntry]
      rintro (h' | h')
      · exact hkey h'
      · exact h.1 h'

/-- Gives `key` the value, in place of an earlier one. -/
def put (t : Table κ α) (key : κ) (value : α) : Table κ α where
  entries := putEntry key value t.entries
  nodup := nodup_keys_putEntry key value t.entries t.nodup

@[simp] theorem get?_empty (key : κ) : (empty : Table κ α).get? key = none := rfl

theorem lookup_cons_if (key name : κ) (value : α) (entries : List (κ × α)) :
    ((name, value) :: entries).lookup key =
      if key = name then some value else entries.lookup key := by
  by_cases h : key = name
  · simp [h]
  · rw [List.lookup_cons, beq_false_of_ne h, if_neg h]

theorem lookup_putEntry (key other : κ) (value : α) (entries : List (κ × α)) :
    (putEntry key value entries).lookup other =
      if other = key then some value else entries.lookup other := by
  induction entries with
  | nil => rw [putEntry, lookup_cons_if]
  | cons entry rest ih =>
    obtain ⟨name, old⟩ := entry
    by_cases hname : name = key
    · subst hname
      simp only [putEntry, if_true, lookup_cons_if]
      split <;> rfl
    · simp only [putEntry, hname, if_false, lookup_cons_if, ih]
      by_cases h : other = name
      · subst h
        simp [hname]
      · simp [h]

theorem lookup_eq_some_iff_mem {key : κ} {value : α} {entries : List (κ × α)}
    (h : (entries.map Prod.fst).Nodup) :
    entries.lookup key = some value ↔ (key, value) ∈ entries := by
  induction entries with
  | nil => simp
  | cons entry rest ih =>
    obtain ⟨name, old⟩ := entry
    rw [List.map_cons, List.nodup_cons] at h
    rw [lookup_cons_if, List.mem_cons]
    by_cases hname : key = name
    · subst hname
      have hrest : (key, value) ∉ rest := fun hmem => h.1 (List.mem_map.mpr ⟨_, hmem, rfl⟩)
      simp [hrest, eq_comm]
    · simp [hname, ih h.2]

/-- What is found at a key is what stands in the table under it. -/
theorem get?_eq_some_iff {t : Table κ α} {key : κ} {value : α} :
    t.get? key = some value ↔ (key, value) ∈ t.entries :=
  lookup_eq_some_iff_mem t.nodup

theorem isEmpty_put (t : Table κ α) (key : κ) (value : α) : (t.put key value).isEmpty = false := by
  change (putEntry key value t.entries).isEmpty = false
  cases t.entries with
  | nil => rfl
  | cons entry rest =>
    rw [putEntry]
    split <;> rfl

/-- Putting changes what is found at one key only. -/
theorem get?_put (t : Table κ α) (key other : κ) (value : α) :
    (t.put key value).get? other = if other = key then some value else t.get? other :=
  lookup_putEntry key other value t.entries

theorem lookup_filter (keep : κ → Bool) (key : κ) (entries : List (κ × α)) :
    (entries.filter fun entry => keep entry.1).lookup key =
      if keep key = true then entries.lookup key else none := by
  induction entries with
  | nil => simp
  | cons entry rest ih =>
    obtain ⟨name, value⟩ := entry
    by_cases hname : key = name
    · subst hname
      by_cases hkeep : keep key = true
      · simp [hkeep]
      · simpa [hkeep] using ih
    · rw [lookup_cons_if, if_neg hname, ← ih, List.filter_cons]
      split
      · rw [lookup_cons_if, if_neg hname]
      · rfl

/-- A key that passes the test is found as before, any other not at all. -/
theorem get?_filterKeys (t : Table κ α) (keep : κ → Bool) (key : κ) :
    (t.filterKeys keep).get? key = if keep key = true then t.get? key else none :=
  lookup_filter keep key t.entries

end Table

end Hotspot
