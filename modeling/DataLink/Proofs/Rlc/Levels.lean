import DataLink.Proofs.Basic
import Mathlib.Data.List.Basic

/-!
# Queues in levels

A queue with priorities can be kept as a map of maps: under each priority a *level*, which is a queue of
its own. A level is made when the first item of its priority comes, and is to be removed with the last
one. Looking for the item in front passes empty levels over; taking it out does not, and neither does the
test whether anything is left. They agree as long as no level is empty (`LeveledQueue.IsTidy`).

Read level by level, a leveled queue is a list in the order of service (`LeveledQueue.entries`), and on a
tidy one every operation is the one of that list: `entries_push`, `front?_eq`, `entries_popFront`,
`isEmpty_iff`. In particular what is taken out is what was found in front (`TakesFront`).
-/

namespace DataLink

variable {α : Type}

/-- Items by priority. A level may be empty, which it should not be. -/
structure LeveledQueue (α : Type) where
  levels : List (Nat × List α)
  /-- The level with the highest priority comes first, and there is one for each priority. -/
  descending : (levels.map Prod.fst).Pairwise fun p q => q < p

namespace LeveledQueue

/-! ## Levels -/

/-- Puts an item at the end of the level of its priority, which is made if there is none. -/
def pushTo (priority : Nat) (a : α) : List (Nat × List α) → List (Nat × List α)
  | [] => [(priority, [a])]
  | (p, level) :: rest =>
    if priority < p then (p, level) :: pushTo priority a rest
    else if priority = p then (p, level ++ [a]) :: rest
    else (priority, [a]) :: (p, level) :: rest

/-- Puts an item in the place of the first one. -/
def setFirst (a : α) : List (Nat × List α) → List (Nat × List α)
  | [] => []
  | (p, []) :: rest => (p, []) :: setFirst a rest
  | (p, _ :: level) :: rest => (p, a :: level) :: rest

/-- Takes the first item out of the first level, and the level away if nothing is left in it. -/
def popFirst : List (Nat × List α) → List (Nat × List α)
  | [] => []
  | (p, level) :: rest => if level.tail.isEmpty then rest else (p, level.tail) :: rest

/-- The items of some levels, in the order of service. -/
def entriesOf (levels : List (Nat × List α)) : List (Nat × α) :=
  levels.flatMap fun e => e.2.map (Prod.mk e.1)

variable {priority : Nat} {a b : α} {levels : List (Nat × List α)} {q : LeveledQueue α}

@[simp] theorem entriesOf_cons (p : Nat) (level : List α) :
    entriesOf ((p, level) :: levels) = level.map (Prod.mk p) ++ entriesOf levels := rfl

theorem mem_entriesOf {e : Nat × α} (h : e ∈ entriesOf levels) : e.1 ∈ levels.map Prod.fst := by
  obtain ⟨⟨p, level⟩, hmem, he⟩ := List.mem_flatMap.1 h
  obtain ⟨b, -, rfl⟩ := List.mem_map.1 he
  exact List.mem_map_of_mem hmem

theorem mem_keys_pushTo {p : Nat} (h : p ∈ (pushTo priority a levels).map Prod.fst) :
    p = priority ∨ p ∈ levels.map Prod.fst := by
  induction levels with
  | nil => exact Or.inl (List.mem_singleton.1 h)
  | cons e rest ih =>
    obtain ⟨first, level⟩ := e
    rw [pushTo] at h
    split at h
    · rcases List.mem_cons.1 h with rfl | h
      · exact Or.inr List.mem_cons_self
      · exact (ih h).imp id (List.mem_cons_of_mem _)
    · split at h
      · exact Or.inr h
      · exact List.mem_cons.1 h

theorem descending_pushTo (h : (levels.map Prod.fst).Pairwise fun p q => q < p) :
    ((pushTo priority a levels).map Prod.fst).Pairwise fun p q => q < p := by
  induction levels with
  | nil => exact List.pairwise_singleton _ _
  | cons e rest ih =>
    obtain ⟨p, level⟩ := e
    obtain ⟨hfirst, hrest⟩ := List.pairwise_cons.1 h
    rw [pushTo]
    split
    · next hlt =>
      refine List.pairwise_cons.2 ⟨fun r hr => ?_, ih hrest⟩
      rcases mem_keys_pushTo hr with rfl | hr
      · exact hlt
      · exact hfirst r hr
    · split
      · exact h
      · next hle hne =>
        refine List.pairwise_cons.2 ⟨fun r hr => ?_, h⟩
        have hp : p < priority := by omega
        rcases List.mem_cons.1 hr with rfl | hr
        · exact hp
        · exact Nat.lt_trans (hfirst r hr) hp

theorem keys_setFirst (a : α) (levels : List (Nat × List α)) :
    (setFirst a levels).map Prod.fst = levels.map Prod.fst := by
  induction levels with
  | nil => rfl
  | cons e rest ih =>
    obtain ⟨p, _ | ⟨b, level⟩⟩ := e
    · rw [setFirst, List.map_cons, List.map_cons, ih]
    · rfl

theorem keys_popFirst_sublist (levels : List (Nat × List α)) :
    ((popFirst levels).map Prod.fst).Sublist (levels.map Prod.fst) := by
  cases levels with
  | nil => exact .refl _
  | cons e rest =>
    rw [popFirst]
    split
    · exact List.sublist_cons_self _ _
    · exact .refl _

/-! ## Queues -/

def empty : LeveledQueue α := ⟨[], List.Pairwise.nil⟩

def push (q : LeveledQueue α) (priority : Nat) (a : α) : LeveledQueue α :=
  ⟨pushTo priority a q.levels, descending_pushTo q.descending⟩

/-- The first item of the first level that has one. -/
def front? (q : LeveledQueue α) : Option α := q.levels.findSome? fun e => e.2.head?

/-- Changes the item that `front?` finds. -/
def setFront (q : LeveledQueue α) (a : α) : LeveledQueue α :=
  ⟨setFirst a q.levels, by
    rw [keys_setFirst]
    exact q.descending⟩

/-- The first item of the first level, if that has one. -/
def top? (q : LeveledQueue α) : Option α := q.levels.head?.bind fun e => e.2.head?

/-- Takes an item out of the first level. -/
def popFront (q : LeveledQueue α) : LeveledQueue α :=
  ⟨popFirst q.levels, q.descending.sublist (keys_popFirst_sublist q.levels)⟩

def size (q : LeveledQueue α) : Nat := Word.total (q.levels.map fun e => e.2.length)

/-- There is no level. -/
def isEmpty (q : LeveledQueue α) : Bool := q.levels.isEmpty

/-- The items in the order of service, each with its priority. -/
def entries (q : LeveledQueue α) : List (Nat × α) := entriesOf q.levels

/-- No level is empty. -/
def IsTidy (q : LeveledQueue α) : Prop := ∀ e ∈ q.levels, e.2 ≠ []

/-- What is found in front is what is taken out, be it changed in between or not. -/
structure TakesFront (q : LeveledQueue α) : Prop where
  top : q.top? = q.front?
  taken : ∀ a, q.front? = some a → ∃ p, q.entries = (p, a) :: q.popFront.entries
  changed : ∀ a, (q.setFront a).popFront = q.popFront

/-! ## Every queue -/

theorem size_eq (q : LeveledQueue α) : q.size = q.entries.length := by
  obtain ⟨levels, hlevels⟩ := q
  show Word.total (levels.map _) = (entriesOf levels).length
  clear hlevels
  induction levels with
  | nil => rfl
  | cons e rest ih =>
    rw [List.map_cons, Word.total, ih, entriesOf_cons, List.length_append, List.length_map]

theorem isEmpty_push (q : LeveledQueue α) (priority : Nat) (a : α) :
    (q.push priority a).isEmpty = false := by
  obtain ⟨levels, hlevels⟩ := q
  show (pushTo priority a levels).isEmpty = false
  cases levels with
  | nil => rfl
  | cons e rest =>
    rw [pushTo]
    split
    · rfl
    · split <;> rfl

theorem front?_eq (q : LeveledQueue α) : q.front? = q.entries.head?.map Prod.snd := by
  obtain ⟨levels, hlevels⟩ := q
  show levels.findSome? _ = (entriesOf levels).head?.map Prod.snd
  clear hlevels
  induction levels with
  | nil => rfl
  | cons e rest ih =>
    obtain ⟨p, _ | ⟨b, level⟩⟩ := e
    · exact ih
    · rfl

theorem place_append {l m : List (Nat × α)} (h : ∀ e ∈ l, priority ≤ e.1) :
    PriorityQueue.place priority a (l ++ m) = l ++ PriorityQueue.place priority a m := by
  induction l with
  | nil => rfl
  | cons e rest ih =>
    obtain ⟨hfirst, hrest⟩ := List.forall_mem_cons.1 h
    rw [List.cons_append, PriorityQueue.place, if_pos hfirst, ih hrest, List.cons_append]

theorem place_of_lt {l : List (Nat × α)} (h : ∀ e ∈ l, e.1 < priority) :
    PriorityQueue.place priority a l = (priority, a) :: l := by
  cases l with
  | nil => rfl
  | cons e rest =>
    rw [PriorityQueue.place, if_neg (Nat.not_le_of_lt (h e List.mem_cons_self))]

/-- An item comes to the end of its level, which is behind all higher levels and before all lower ones.
That is its place in the order of service. -/
theorem entries_push (q : LeveledQueue α) (priority : Nat) (a : α) :
    (q.push priority a).entries = PriorityQueue.place priority a q.entries := by
  obtain ⟨levels, hlevels⟩ := q
  show entriesOf (pushTo priority a levels) = PriorityQueue.place priority a (entriesOf levels)
  induction levels with
  | nil => rfl
  | cons e rest ih =>
    obtain ⟨p, level⟩ := e
    obtain ⟨hfirst, hrest⟩ := List.pairwise_cons.1 hlevels
    have hlower : ∀ f ∈ entriesOf rest, f.1 < p := fun f hf => hfirst f.1 (mem_entriesOf hf)
    have hlevel : ∀ f ∈ level.map (Prod.mk p), f.1 = p := by
      intro f hf
      obtain ⟨b, -, rfl⟩ := List.mem_map.1 hf
      rfl
    rw [pushTo, entriesOf_cons]
    split
    · next hlt =>
      rw [entriesOf_cons, ih hrest,
        place_append fun f hf => (hlevel f hf).symm ▸ Nat.le_of_lt hlt]
    · split
      · next heq =>
        subst heq
        rw [entriesOf_cons, place_append fun f hf => Nat.le_of_eq (hlevel f hf).symm,
          place_of_lt hlower, List.map_append, List.append_assoc]
        rfl
      · next hle hne =>
        have hp : p < priority := by omega
        rw [place_of_lt]
        · rfl
        · intro f hf
          rcases List.mem_append.1 hf with hf | hf
          · exact (hlevel f hf).symm ▸ hp
          · exact Nat.lt_trans (hlower f hf) hp

theorem entries_setFront {p : Nat} {rest : List (Nat × α)} (h : q.entries = (p, b) :: rest) (a : α) :
    (q.setFront a).entries = (p, a) :: rest := by
  obtain ⟨levels, hlevels⟩ := q
  change entriesOf levels = _ at h
  show entriesOf (setFirst a levels) = _
  clear hlevels
  induction levels with
  | nil => cases h
  | cons e others ih =>
    obtain ⟨first, _ | ⟨c, level⟩⟩ := e
    · exact ih h
    · cases h
      rfl

/-! ## Queues without empty levels -/

namespace IsTidy

theorem empty : (LeveledQueue.empty : LeveledQueue α).IsTidy := List.forall_mem_nil _

theorem push (h : q.IsTidy) (priority : Nat) (a : α) : (q.push priority a).IsTidy := by
  obtain ⟨levels, hlevels⟩ := q
  change ∀ e ∈ levels, e.2 ≠ [] at h
  show ∀ e ∈ pushTo priority a levels, e.2 ≠ []
  clear hlevels
  induction levels with
  | nil => exact List.forall_mem_singleton.2 (List.cons_ne_nil a [])
  | cons e rest ih =>
    obtain ⟨hfirst, hrest⟩ := List.forall_mem_cons.1 h
    rw [pushTo]
    split
    · exact List.forall_mem_cons.2 ⟨hfirst, ih hrest⟩
    · split
      · exact List.forall_mem_cons.2 ⟨List.append_ne_nil_of_right_ne_nil _ (List.cons_ne_nil a []), hrest⟩
      · exact List.forall_mem_cons.2 ⟨List.cons_ne_nil a [], h⟩

theorem setFront (h : q.IsTidy) (a : α) : (q.setFront a).IsTidy := by
  obtain ⟨levels, hlevels⟩ := q
  change ∀ e ∈ levels, e.2 ≠ [] at h
  show ∀ e ∈ setFirst a levels, e.2 ≠ []
  cases levels with
  | nil => exact h
  | cons e rest =>
    obtain ⟨hfirst, hrest⟩ := List.forall_mem_cons.1 h
    obtain ⟨p, _ | ⟨b, level⟩⟩ := e
    · exact absurd rfl hfirst
    · exact List.forall_mem_cons.2 ⟨List.cons_ne_nil a level, hrest⟩

theorem popFront (h : q.IsTidy) : q.popFront.IsTidy := by
  obtain ⟨levels, hlevels⟩ := q
  change ∀ e ∈ levels, e.2 ≠ [] at h
  show ∀ e ∈ popFirst levels, e.2 ≠ []
  cases levels with
  | nil => exact h
  | cons e rest =>
    obtain ⟨-, hrest⟩ := List.forall_mem_cons.1 h
    rw [popFirst]
    split
    · exact hrest
    · next hleft =>
      rw [List.isEmpty_iff] at hleft
      exact List.forall_mem_cons.2 ⟨hleft, hrest⟩

/-- What is taken out is the same, be it changed before or not. -/
theorem popFront_setFront (h : q.IsTidy) (a : α) : (q.setFront a).popFront = q.popFront := by
  obtain ⟨levels, hlevels⟩ := q
  change ∀ e ∈ levels, e.2 ≠ [] at h
  show LeveledQueue.mk (popFirst (setFirst a levels)) _ = ⟨popFirst levels, _⟩
  congr 1
  cases levels with
  | nil => rfl
  | cons e rest =>
    obtain ⟨p, _ | ⟨b, level⟩⟩ := e
    · exact absurd rfl (h _ List.mem_cons_self)
    · rfl

/-- What is in front is in the first level. -/
theorem top?_eq (h : q.IsTidy) : q.top? = q.front? := by
  obtain ⟨levels, hlevels⟩ := q
  change ∀ e ∈ levels, e.2 ≠ [] at h
  show levels.head?.bind _ = levels.findSome? _
  cases levels with
  | nil => rfl
  | cons e rest =>
    obtain ⟨p, _ | ⟨b, level⟩⟩ := e
    · exact absurd rfl (h _ List.mem_cons_self)
    · rfl

/-- What is taken out is the first item that there is. -/
theorem entries_popFront (h : q.IsTidy) : q.popFront.entries = q.entries.tail := by
  obtain ⟨levels, hlevels⟩ := q
  change ∀ e ∈ levels, e.2 ≠ [] at h
  show entriesOf (popFirst levels) = (entriesOf levels).tail
  cases levels with
  | nil => rfl
  | cons e rest =>
    obtain ⟨p, _ | ⟨b, _ | ⟨c, level⟩⟩⟩ := e
    · exact absurd rfl (h _ List.mem_cons_self)
    · rfl
    · rfl

/-- There is a level exactly if there is an item. -/
theorem isEmpty_iff (h : q.IsTidy) : q.isEmpty = true ↔ q.entries = [] := by
  obtain ⟨levels, hlevels⟩ := q
  change ∀ e ∈ levels, e.2 ≠ [] at h
  show levels.isEmpty = true ↔ entriesOf levels = []
  cases levels with
  | nil => exact iff_of_true rfl rfl
  | cons e rest =>
    obtain ⟨p, _ | ⟨b, level⟩⟩ := e
    · exact absurd rfl (h _ List.mem_cons_self)
    · exact iff_of_false Bool.false_ne_true (List.cons_ne_nil _ _)

theorem entries_ne_nil (h : q.IsTidy) (hlevel : q.isEmpty = false) : q.entries ≠ [] := by
  intro hnil
  rw [← h.isEmpty_iff, hlevel] at hnil
  cases hnil

/-- **What is taken out is what was in front.** -/
theorem entries_eq_cons (h : q.IsTidy) (hfront : q.front? = some a) :
    ∃ p, q.entries = (p, a) :: q.popFront.entries := by
  rw [front?_eq] at hfront
  rw [h.entries_popFront]
  cases hq : q.entries with
  | nil =>
    rw [hq] at hfront
    cases hfront
  | cons e rest =>
    rw [hq] at hfront
    cases hfront
    exact ⟨e.1, rfl⟩

theorem takesFront (h : q.IsTidy) : q.TakesFront :=
  ⟨h.top?_eq, fun _ => h.entries_eq_cons, h.popFront_setFront⟩

end IsTidy

/-- With an empty level in front, one item is found and none is taken out. -/
example : (LeveledQueue.mk [(5, []), (1, ['a'])] (by decide)).front? = some 'a' ∧
    (LeveledQueue.mk [(5, []), (1, ['a'])] (by decide)).popFront.entries = [(1, 'a')] := by decide

end LeveledQueue

end DataLink
