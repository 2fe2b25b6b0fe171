/-!
# Tables

A finite map as a list of entries in which no key occurs twice. Looking a key up after a change is
described by `get?_insert`, `get?_erase` and `get?_filter`; the order of the entries carries no
meaning.
-/

namespace DataLink

/-- Entries with distinct keys. -/
structure Table (κ ν : Type) where
  entries : List (κ × ν)
  nodup : (entries.map Prod.fst).Nodup

namespace Table

variable {κ ν : Type}

instance [DecidableEq κ] [DecidableEq ν] : DecidableEq (Table κ ν) := fun s t =>
  decidable_of_iff (s.entries = t.entries) (by cases s; cases t; simp)

def empty : Table κ ν := ⟨[], List.nodup_nil⟩

instance : Inhabited (Table κ ν) := ⟨empty⟩

def keys (t : Table κ ν) : List κ := t.entries.map Prod.fst

def size (t : Table κ ν) : Nat := t.entries.length

def isEmpty (t : Table κ ν) : Bool := t.entries.isEmpty

theorem nodup_keys (t : Table κ ν) : t.keys.Nodup := t.nodup

/-- Keeps the entries that pass a test. -/
def filter (keep : κ → ν → Bool) (t : Table κ ν) : Table κ ν where
  entries := t.entries.filter fun e => keep e.1 e.2
  nodup := t.nodup.sublist ((List.filter_sublist).map _)

variable [DecidableEq κ]

def get? (t : Table κ ν) (k : κ) : Option ν :=
  (t.entries.find? fun e => e.1 = k).map Prod.snd

def contains (t : Table κ ν) (k : κ) : Bool := (t.get? k).isSome

def erase (t : Table κ ν) (k : κ) : Table κ ν := t.filter fun j _ => j ≠ k

/-- Gives `k` the value `v`, whatever it had before. -/
def insert (t : Table κ ν) (k : κ) (v : ν) : Table κ ν where
  entries := (k, v) :: (t.erase k).entries
  nodup := by
    refine List.nodup_cons.2 ⟨?_, (t.erase k).nodup⟩
    simp [erase, filter]

/-- Gives `k` a value if there is one, and takes its entry away otherwise. -/
def set (t : Table κ ν) (k : κ) : Option ν → Table κ ν
  | some v => t.insert k v
  | none => t.erase k

/-! ## Looking up -/

@[simp] theorem get?_empty (k : κ) : (empty : Table κ ν).get? k = none := rfl

theorem mem_entries_iff {t : Table κ ν} {k : κ} {v : ν} :
    (k, v) ∈ t.entries ↔ t.get? k = some v := by
  obtain ⟨es, hes⟩ := t
  simp only [get?]
  induction es with
  | nil => simp
  | cons e es ih =>
    obtain ⟨j, w⟩ := e
    simp only [List.map_cons, List.nodup_cons] at hes
    by_cases h : j = k
    · subst h
      have hn : (j, v) ∉ es := fun hm => hes.1 (List.mem_map.2 ⟨_, hm, rfl⟩)
      simp [hn, eq_comm]
    · have := ih hes.2
      simp [h, Ne.symm h, this]

theorem get?_filter (t : Table κ ν) (keep : κ → ν → Bool) (k : κ) :
    (t.filter keep).get? k = (t.get? k).filter (keep k) := by
  ext v
  rw [← mem_entries_iff, Option.filter_eq_some_iff, ← mem_entries_iff]
  simp [filter]

theorem get?_erase (t : Table κ ν) (j k : κ) :
    (t.erase j).get? k = if j = k then none else t.get? k := by
  rw [erase, get?_filter]
  by_cases h : j = k
  · subst h
    cases t.get? j <;> simp
  · have h' : k ≠ j := fun e => h e.symm
    cases t.get? k <;> simp [h, h']

theorem get?_insert (t : Table κ ν) (j k : κ) (v : ν) :
    (t.insert j v).get? k = if j = k then some v else t.get? k := by
  by_cases h : j = k
  · simp [get?, insert, h]
  · have := get?_erase t j k
    simp only [h, if_false] at this
    rw [if_neg h, ← this]
    simp [get?, insert, h]

theorem get?_set (t : Table κ ν) (j k : κ) (v : Option ν) :
    (t.set j v).get? k = if j = k then v else t.get? k := by
  cases v with
  | none => simp [set, get?_erase]
  | some v => simp [set, get?_insert]

theorem mem_keys_iff {t : Table κ ν} {k : κ} : k ∈ t.keys ↔ t.contains k = true := by
  rw [contains, Option.isSome_iff_exists, keys]
  simp [← mem_entries_iff]

end Table

end DataLink
