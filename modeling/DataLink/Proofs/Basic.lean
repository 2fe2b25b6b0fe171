import DataLink.Call
import DataLink.Table
import DataLink.Rlc.Queue

/-!
# Results, runs, sums, addresses, tables and queues

Small laws about results (`bind_eq_ok`), runs (`forall_prefix_foldl_iff`), bounded sums
(`Word.foldl_clamp`), addresses, tables and queues that the modules on the layers share.
-/

namespace DataLink

/-! ## Results -/

theorem bind_eq_ok {ε α β : Type} {first : Except ε α} {next : α → Except ε β} {b : β} :
    (first >>= next) = .ok b ↔ ∃ a, first = .ok a ∧ next a = .ok b := by
  cases first <;> simp [bind, Except.bind]

theorem mapError_ok {ε δ α : Type} (f : ε → δ) (a : α) :
    (Except.ok a : Except ε α).mapError f = .ok a := rfl

theorem mapError_eq_ok {ε δ α : Type} {f : ε → δ} {r : Except ε α} {a : α} :
    r.mapError f = .ok a ↔ r = .ok a := by
  cases r with
  | error e => exact ⟨fun h => (by cases h), fun h => (by cases h)⟩
  | ok b => simp [mapError_ok]

/-! ## Runs -/

/-- A run is good as long as each of its calls is. The good states have `P`, and `I` is what carries it
from one to the next; a bad call leaves a state without `P`. -/
theorem forall_prefix_foldl_iff {σ α : Type} {I P : σ → Prop} {step : σ → α → σ}
    {bad : σ → α → Bool} {anyBad : σ → List α → Bool} (hnil : ∀ s, anyBad s [] = false)
    (hcons : ∀ s a rest, anyBad s (a :: rest) = (bad s a || anyBad (step s a) rest))
    (hI : ∀ {s}, I s → P s) (hgood : ∀ {s a}, I s → bad s a = false → I (step s a))
    (hbad : ∀ {s a}, I s → bad s a = true → ¬ P (step s a)) {s : σ} (hs : I s) (calls : List α) :
    (∀ past, past <+: calls → P (past.foldl step s)) ↔ anyBad s calls = false := by
  induction calls generalizing s with
  | nil =>
    refine iff_of_true (fun past hpast => ?_) (hnil s)
    rw [List.prefix_nil.1 hpast]
    exact hI hs
  | cons a rest ih =>
    rw [hcons]
    cases hfirst : bad s a with
    | true =>
      refine iff_of_false (fun hruns => ?_) (by simp)
      exact hbad hs hfirst (hruns [a] (List.prefix_append [a] rest))
    | false =>
      rw [Bool.false_or, ← ih (hgood hs hfirst)]
      constructor
      · intro hruns past hpast
        exact hruns (a :: past) ((List.prefix_cons_inj a).2 hpast)
      · intro hruns past hpast
        rcases List.prefix_cons_iff.1 hpast with rfl | ⟨later, rfl, hlater⟩
        · exact hI hs
        · exact hruns later hlater

/-! ## Bounded sums -/

namespace Word

theorem clamp_add_clamp (a b : Nat) : clamp (clamp a + b) = clamp (a + b) := by
  unfold clamp
  omega

theorem total_of_perm {l m : List Nat} (h : l.Perm m) : total l = total m := by
  induction h with
  | nil => rfl
  | cons n _ ih => rw [total, total, ih]
  | swap a b rest => exact Nat.add_left_comm b a (total rest)
  | trans _ _ ih ih' => exact ih.trans ih'

/-- A sum that is bounded at every step is the bounded sum. -/
theorem foldl_clamp (l : List Nat) (start : Nat) :
    l.foldl (fun sum n => clamp (sum + n)) (clamp start) = clamp (start + total l) := by
  induction l generalizing start with
  | nil => rfl
  | cons n rest ih => rw [List.foldl_cons, clamp_add_clamp, ih, total, Nat.add_assoc]

end Word

theorem eq_add_of_checkedSum {a b n : Nat} (h : checkedSum a b = .ok n) : n = a + b := by
  unfold checkedSum at h
  split at h <;> cases h
  rfl

theorem Packet.eq_length_of_bits {p : Packet} {n : Nat} (h : p.bits = .ok n) : n = p.length := by
  unfold bits at h
  split at h <;> cases h
  rfl

/-! ## Addresses, tables and queues -/

theorem Address.isSet_of_isSymbolic {id : Address} (h : id.isSymbolic = false) :
    id.isSet = true := by
  rw [isSet_iff]
  rintro rfl
  cases h

theorem Table.get?_set_self {κ ν : Type} [DecidableEq κ] (t : Table κ ν) (k : κ) (v : Option ν) :
    (t.set k v).get? k = v := by
  rw [Table.get?_set, if_pos rfl]

theorem Table.size_erase_lt {κ ν : Type} [DecidableEq κ] {t : Table κ ν} {k : κ} {v : ν}
    (h : t.get? k = some v) : (t.erase k).size < t.size := by
  have hmem := Table.mem_entries_iff.2 h
  exact List.length_filter_lt_length_iff_exists.2 ⟨(k, v), hmem, by simp⟩

theorem Table.erase_eq_self {κ ν : Type} [DecidableEq κ] {t : Table κ ν} {k : κ}
    (h : t.get? k = none) : t.erase k = t := by
  have hother : ∀ e ∈ t.entries, decide (e.1 ≠ k) = true := by
    intro e he
    rw [decide_eq_true_eq]
    rintro rfl
    rw [Table.mem_entries_iff.1 he] at h
    cases h
  obtain ⟨entries, nodup⟩ := t
  simp only [Table.erase, Table.filter, Table.mk.injEq]
  exact List.filter_eq_self.2 hother

theorem PriorityQueue.items_push_ne_nil {α : Type} (q : PriorityQueue α) (priority : Nat) (a : α) :
    (q.push priority a).items ≠ [] := by
  intro hnil
  have hperm := place_perm priority a q.items
  change (q.push priority a).items.Perm _ at hperm
  rw [hnil] at hperm
  exact List.cons_ne_nil _ _ (List.nil_perm.1 hperm)

/-- An item has the same place whatever the items are, as only their priorities count. -/
theorem PriorityQueue.map_place {α β : Type} (f : α → β) (priority : Nat) (a : α)
    (l : List (Nat × α)) : (place priority a l).map (fun x => (x.1, f x.2)) =
      place priority (f a) (l.map fun x => (x.1, f x.2)) := by
  induction l with
  | nil => rfl
  | cons x rest ih =>
    rw [List.map_cons, place, place]
    split
    · rw [List.map_cons, ih]
    · rfl

/-- A new item goes behind those of its own or a higher priority, and before the others. -/
theorem PriorityQueue.pairwise_place_of {α : Type} {R : Nat × α → Nat × α → Prop} {priority : Nat}
    {a : α} {l : List (Nat × α)} (h : l.Pairwise R) (hservice : l.Pairwise fun e f => f.1 ≤ e.1)
    (hbehind : ∀ e ∈ l, priority ≤ e.1 → R e (priority, a))
    (hbefore : ∀ e ∈ l, e.1 < priority → R (priority, a) e) : (place priority a l).Pairwise R := by
  induction l with
  | nil => exact List.pairwise_singleton _ _
  | cons e rest ih =>
    obtain ⟨hfirst, hrest⟩ := List.pairwise_cons.1 h
    obtain ⟨hhighest, hservice⟩ := List.pairwise_cons.1 hservice
    rw [place]
    split
    · next hle =>
      refine List.pairwise_cons.2 ⟨fun f hf => ?_, ih hrest hservice
        (fun f hf => hbehind f (List.mem_cons_of_mem _ hf))
        fun f hf => hbefore f (List.mem_cons_of_mem _ hf)⟩
      rcases List.mem_cons.1 ((place_perm priority a rest).mem_iff.1 hf) with rfl | hf
      · exact hbehind e List.mem_cons_self hle
      · exact hfirst f hf
    · next hlt =>
      have hlower : ∀ f ∈ e :: rest, f.1 < priority := by
        intro f hf
        rcases List.mem_cons.1 hf with rfl | hf
        · exact Nat.lt_of_not_le hlt
        · exact Nat.lt_of_le_of_lt (hhighest f hf) (Nat.lt_of_not_le hlt)
      exact List.pairwise_cons.2 ⟨fun f hf => hbefore f hf (hlower f hf), h⟩

theorem PriorityQueue.nonempty?_eq_some {α : Type} {q left : PriorityQueue α}
    (h : q.nonempty? = some left) : left = q ∧ left.items ≠ [] := by
  rw [nonempty?] at h
  split at h
  · cases h
  · next hempty =>
    cases h
    exact ⟨rfl, fun hnil => hempty (List.isEmpty_iff.2 hnil)⟩

theorem PriorityQueue.getD_nonempty? {α : Type} (q : PriorityQueue α) :
    q.nonempty?.getD .empty = q := by
  obtain ⟨items⟩ := q
  cases items <;> rfl

end DataLink
