import StaticCheck.Session.TypeCache
import Mathlib.Tactic.Common

/-!
# The queue of a cache and its entries

A cache holds its keys twice: in the entries, and in the queue that tells their
age.  Insertions, evictions and the end of a trial change both, each in its own
way.  `Consistent` says that the two never drift apart: the queue lists the keys
of the entries, without repetition and in the same order, and it is never longer
than the capacity.  With it an eviction is nothing but the loss of the front of
both lists.
-/

namespace StaticCheck
namespace TypeCache

structure Consistent (cache : TypeCache) : Prop where
  keys : cache.order = cache.entries.map Prod.fst
  nodup : cache.order.Nodup
  bounded : cache.size ≤ cache.capacity

section Entries

variable {entries : List (ExprKey × Ty)} {key : ExprKey} {ty : Ty}

@[simp] theorem map_fst_replace :
    (replace entries key ty).map Prod.fst = entries.map Prod.fst := by
  unfold replace
  rw [List.map_map]
  apply List.map_congr_left
  intro entry _
  by_cases hkey : entry.1 = key
  · simp [hkey]
  · simp [hkey]

@[simp] theorem map_fst_remove :
    (remove entries key).map Prod.fst =
      (entries.map Prod.fst).filter fun other => other ≠ key := by
  unfold remove
  rw [List.filter_map]
  rfl

theorem lookup_eq_none_iff :
    entries.lookup key = none ↔ key ∉ entries.map Prod.fst := by
  rw [List.lookup_eq_none_iff]
  simp only [bne_iff_ne, List.mem_map, not_exists, not_and]
  constructor
  · intro h entry hentry heq
    exact h entry hentry heq.symm
  · intro h entry hentry heq
    exact h entry hentry heq.symm

theorem remove_eq_self (hkey : key ∉ entries.map Prod.fst) :
    remove entries key = entries := by
  unfold remove
  rw [List.filter_eq_self]
  intro entry hentry
  have hne : entry.1 ≠ key := by
    intro heq
    exact hkey (List.mem_map.mpr ⟨entry, hentry, heq⟩)
  simp [hne]

theorem lookup_replace_self (hkey : key ∈ entries.map Prod.fst) :
    (replace entries key ty).lookup key = some ty := by
  induction entries with
  | nil => simp at hkey
  | cons entry rest ih =>
    obtain ⟨other, old⟩ := entry
    by_cases heq : other = key
    · subst other
      simp [replace]
    · have hrest : key ∈ rest.map Prod.fst := by
        simpa [Ne.symm heq] using hkey
      have hbeq : (key == other) = false := by simp [Ne.symm heq]
      have hcons : replace ((other, old) :: rest) key ty =
          (other, old) :: replace rest key ty := by
        simp [replace, heq]
      rw [hcons, List.lookup_cons, hbeq]
      exact ih hrest

theorem lookup_replace_of_ne {other : ExprKey} (hne : other ≠ key) :
    (replace entries key ty).lookup other = entries.lookup other := by
  induction entries with
  | nil => rfl
  | cons entry rest ih =>
    obtain ⟨first, old⟩ := entry
    by_cases heq : first = key
    · subst first
      have hbeq : (other == key) = false := by simp [hne]
      have hcons : replace ((key, old) :: rest) key ty = (key, ty) ::
          replace rest key ty := by
        simp [replace]
      rw [hcons, List.lookup_cons, List.lookup_cons, hbeq]
      exact ih
    · have hcons : replace ((first, old) :: rest) key ty =
          (first, old) :: replace rest key ty := by
        simp [replace, heq]
      rw [hcons, List.lookup_cons, List.lookup_cons, ih]

theorem lookup_remove_of_ne {other : ExprKey} (hne : other ≠ key) :
    (remove entries key).lookup other = entries.lookup other := by
  induction entries with
  | nil => rfl
  | cons entry rest ih =>
    obtain ⟨first, old⟩ := entry
    by_cases heq : first = key
    · subst first
      have hbeq : (other == key) = false := by simp [hne]
      have hcons : remove ((key, old) :: rest) key = remove rest key := by
        simp [remove]
      rw [hcons, List.lookup_cons, hbeq]
      exact ih
    · have hcons : remove ((first, old) :: rest) key = (first, old) ::
          remove rest key := by
        simp [remove, heq]
      rw [hcons, List.lookup_cons, List.lookup_cons, ih]

theorem lookup_remove_self : (remove entries key).lookup key = none := by
  rw [lookup_eq_none_iff, map_fst_remove]
  simp

theorem lookup_drop (hnodup : (entries.map Prod.fst).Nodup) (count : Nat) :
    (entries.drop count).lookup key =
      if key ∈ (entries.map Prod.fst).take count then none
      else entries.lookup key := by
  have hsplit : entries.map Prod.fst =
      (entries.take count).map Prod.fst ++
      (entries.drop count).map Prod.fst := by
    rw [← List.map_append, List.take_append_drop]
  have hlookup : entries.lookup key =
      ((entries.take count).lookup key).or
      ((entries.drop count).lookup key) := by
    rw [← List.lookup_append, List.take_append_drop]
  rw [hsplit, List.nodup_append] at hnodup
  obtain ⟨-, -, hdisjoint⟩ := hnodup
  rw [← List.map_take]
  by_cases hfront : key ∈ (entries.take count).map Prod.fst
  · rw [if_pos hfront, lookup_eq_none_iff]
    intro hback
    exact hdisjoint key hfront key hback rfl
  · rw [if_neg hfront, hlookup, lookup_eq_none_iff.mpr hfront]
    rfl

end Entries

variable {cache : TypeCache} {key : ExprKey} {ty : Ty}

theorem get?_eq_none_iff (h : cache.Consistent) :
    cache.get? key = none ↔ key ∉ cache.order := by
  rw [h.keys]
  exact lookup_eq_none_iff

theorem mem_order_iff (h : cache.Consistent) :
    key ∈ cache.order ↔ (cache.get? key).isSome := by
  rw [← Option.ne_none_iff_isSome, ne_eq, get?_eq_none_iff h, not_not]

theorem length_order (h : cache.Consistent) :
    cache.order.length = cache.size := by
  rw [h.keys, List.length_map]
  rfl

/-!
## Making room
-/

theorem remove_head {rest : List (ExprKey × Ty)}
    (hnodup : (key :: rest.map Prod.fst).Nodup) :
    remove ((key, ty) :: rest) key = rest := by
  have hcons : remove ((key, ty) :: rest) key = remove rest key := by
    simp [remove]
  rw [hcons]
  exact remove_eq_self (List.nodup_cons.mp hnodup).1

theorem dropOldest_eq (h : cache.Consistent) (count : Nat) :
    cache.dropOldest count =
      { cache with
        entries := cache.entries.drop count
        order := cache.order.drop count } := by
  induction count generalizing cache with
  | zero => rfl
  | succ count ih =>
    obtain ⟨capacity, entries, order, trials⟩ := cache
    obtain ⟨hkeys, hnodup, hbounded⟩ := h
    dsimp only [size] at hkeys hnodup hbounded
    subst order
    cases entries with
    | nil => rfl
    | cons entry rest =>
      obtain ⟨key, ty⟩ := entry
      have hremoved : remove ((key, ty) :: rest) key = rest :=
        remove_head hnodup
      have htail : Consistent ⟨capacity, rest, rest.map Prod.fst, trials⟩ := by
        constructor
        · rfl
        · exact (List.nodup_cons.mp hnodup).2
        · simp only [List.length_cons] at hbounded
          dsimp only [size]
          omega
      simp only [dropOldest, List.map_cons, hremoved, List.drop_succ_cons]
      exact ih htail

/-- Number of keys that a new key costs. -/
def surplus (cache : TypeCache) : Nat :=
  if cache.size = cache.capacity then max 1 (cache.size / 2) else 0

theorem withRoom_eq (h : cache.Consistent) :
    cache.withRoom =
      { cache with
        entries := cache.entries.drop cache.surplus
        order := cache.order.drop cache.surplus } := by
  have hbounded := h.bounded
  unfold withRoom surplus
  by_cases hfull : cache.size = cache.capacity
  · have hisFull : cache.isFull = true := by
      simp [isFull, hfull]
    rw [if_pos hisFull, if_pos hfull, dropOldest_eq h]
    unfold evictionCount
    rw [Nat.max_comm]
  · have hisFull : ¬cache.isFull = true := by
      simp only [isFull, decide_eq_true_eq]
      omega
    rw [if_neg hisFull, if_neg hfull]
    rfl

/-!
## Single operations
-/

theorem insert_of_zero (hcapacity : cache.capacity = 0) :
    cache.insert key ty = cache := by
  unfold insert
  rw [if_pos hcapacity]

theorem insert_of_some (hcapacity : cache.capacity ≠ 0) {previous : Ty}
    (hknown : cache.get? key = some previous) :
    cache.insert key ty =
      { cache with
        entries := replace cache.entries key ty
        trials := note cache.trials ⟨key, some previous⟩ } := by
  unfold insert
  rw [if_neg hcapacity, hknown]

theorem insert_of_none (hcapacity : cache.capacity ≠ 0)
    (hnew : cache.get? key = none) : cache.insert key ty =
      { cache with
        entries := cache.withRoom.entries ++ [(key, ty)]
        order := cache.withRoom.order ++ [key]
        trials := note cache.trials ⟨key, none⟩ } := by
  unfold insert
  rw [if_neg hcapacity, hnew]

theorem capacity_insert : (cache.insert key ty).capacity = cache.capacity := by
  unfold insert
  split
  · rfl
  · split <;> rfl

theorem get?_insert_self (h : cache.Consistent)
    (hcapacity : cache.capacity ≠ 0) :
    (cache.insert key ty).get? key = some ty := by
  cases hknown : cache.get? key with
  | some previous =>
    have hmem : key ∈ cache.entries.map Prod.fst := by
      rw [← h.keys, mem_order_iff h, hknown]
      rfl
    rw [insert_of_some hcapacity hknown]
    exact lookup_replace_self hmem
  | none =>
    have hold : (cache.entries.drop cache.surplus).lookup key = none := by
      rw [lookup_eq_none_iff, List.map_drop, ← h.keys]
      intro hmem
      exact (get?_eq_none_iff h).mp hknown (List.mem_of_mem_drop hmem)
    rw [insert_of_none hcapacity hknown, withRoom_eq h]
    simp [get?, List.lookup_append, hold]

theorem order_insert_of_some (hcapacity : cache.capacity ≠ 0)
    (hknown : (cache.get? key).isSome) :
    (cache.insert key ty).order = cache.order := by
  obtain ⟨previous, hprevious⟩ := Option.isSome_iff_exists.mp hknown
  rw [insert_of_some hcapacity hprevious]

theorem order_insert_of_none (h : cache.Consistent)
    (hcapacity : cache.capacity ≠ 0) (hnew : cache.get? key = none) :
    (cache.insert key ty).order = cache.order.drop cache.surplus ++ [key] := by
  rw [insert_of_none hcapacity hnew, withRoom_eq h]

theorem get?_insert_of_some (hcapacity : cache.capacity ≠ 0)
    (hknown : (cache.get? key).isSome) {other : ExprKey} (hne : other ≠ key) :
    (cache.insert key ty).get? other = cache.get? other := by
  obtain ⟨previous, hprevious⟩ := Option.isSome_iff_exists.mp hknown
  rw [insert_of_some hcapacity hprevious]
  exact lookup_replace_of_ne hne

theorem get?_insert_of_none (h : cache.Consistent)
    (hcapacity : cache.capacity ≠ 0) (hnew : cache.get? key = none)
    {other : ExprKey} (hne : other ≠ key) :
    (cache.insert key ty).get? other =
      if other ∈ cache.order.take cache.surplus then none
      else cache.get? other := by
  have hnodup : (cache.entries.map Prod.fst).Nodup := h.keys ▸ h.nodup
  have hbeq : (other == key) = false := by simp [hne]
  rw [insert_of_none hcapacity hnew, withRoom_eq h, h.keys]
  simp only [get?, List.lookup_append, List.lookup_cons, hbeq, List.lookup_nil,
    Option.or_none]
  exact lookup_drop hnodup _

theorem get?_of_dropOldest (count : Nat)
    (h : (cache.dropOldest count).get? key = some ty) :
    cache.get? key = some ty := by
  induction count generalizing cache with
  | zero => exact h
  | succ count ih =>
    unfold dropOldest at h
    cases horder : cache.order with
    | nil =>
      rw [horder] at h
      exact h
    | cons oldest order =>
      rw [horder] at h
      have hrest : (remove cache.entries oldest).lookup key = some ty := ih h
      by_cases hold : key = oldest
      · rw [hold, lookup_remove_self] at hrest
        cases hrest
      · rw [lookup_remove_of_ne hold] at hrest
        exact hrest

theorem get?_of_insert {other : ExprKey} {known : Ty} (hne : other ≠ key)
    (h : (cache.insert key ty).get? other = some known) :
    cache.get? other = some known := by
  by_cases hcapacity : cache.capacity = 0
  · rw [insert_of_zero hcapacity] at h
    exact h
  cases hkey : cache.get? key with
  | some previous =>
    rw [get?_insert_of_some hcapacity (Option.isSome_of_eq_some hkey) hne] at h
    exact h
  | none =>
    have hbeq : (other == key) = false := by simp [hne]
    rw [insert_of_none hcapacity hkey] at h
    simp only [get?, List.lookup_append, List.lookup_cons, hbeq,
      List.lookup_nil, Option.or_none] at h
    unfold withRoom at h
    split at h
    · exact get?_of_dropOldest _ h
    · exact h

namespace Consistent

theorem new (capacity : Nat) : (TypeCache.new capacity).Consistent := by
  constructor <;> simp [TypeCache.new, size]

theorem clear (cache : TypeCache) : cache.clear.Consistent := by
  constructor <;> simp [TypeCache.clear, size]

theorem beginTrial (h : cache.Consistent) : cache.beginTrial.Consistent :=
  { h with }

theorem setTrials (h : cache.Consistent) (trials : List (List Insertion)) :
    { cache with trials }.Consistent :=
  { h with }

theorem size_sub_surplus_lt (h : cache.Consistent)
    (hcapacity : cache.capacity ≠ 0) :
    cache.size - cache.surplus < cache.capacity := by
  have hbounded := h.bounded
  unfold surplus
  split <;> omega

theorem insert (h : cache.Consistent) (key : ExprKey) (ty : Ty) :
    (cache.insert key ty).Consistent := by
  by_cases hcapacity : cache.capacity = 0
  · rw [insert_of_zero hcapacity]
    exact h
  cases hknown : cache.get? key with
  | some previous =>
    rw [insert_of_some hcapacity hknown]
    constructor
    · rw [map_fst_replace]
      exact h.keys
    · exact h.nodup
    · have hbounded := h.bounded
      simpa [size, replace] using hbounded
  | none =>
    have hnew : key ∉ cache.order := (get?_eq_none_iff h).mp hknown
    have hsize := size_sub_surplus_lt h hcapacity
    rw [insert_of_none hcapacity hknown, withRoom_eq h]
    constructor
    · simp [h.keys, List.map_drop]
    · rw [List.nodup_append]
      refine ⟨h.nodup.sublist (List.drop_sublist _ _), by simp, ?_⟩
      intro old hold other hother
      cases List.mem_singleton.mp hother
      rintro rfl
      exact hnew (List.mem_of_mem_drop hold)
    · simp only [size, List.length_append, List.length_singleton,
        List.length_drop] at hsize ⊢
      omega

theorem undo (h : cache.Consistent) (insertion : Insertion) :
    (cache.undo insertion).Consistent := by
  have hbounded := h.bounded
  unfold TypeCache.undo
  split
  · constructor
    · rw [map_fst_replace]
      exact h.keys
    · exact h.nodup
    · simpa [size, replace] using hbounded
  · constructor
    · rw [map_fst_remove, ← h.keys]
    · exact h.nodup.sublist List.filter_sublist
    · have hless := List.length_filter_le (fun entry => entry.1 ≠ insertion.key)
        cache.entries
      simp only [size, remove] at hbounded ⊢
      exact Nat.le_trans hless hbounded

theorem undoAll (h : cache.Consistent) (journal : List Insertion) :
    (journal.foldl TypeCache.undo cache).Consistent := by
  induction journal generalizing cache with
  | nil => exact h
  | cons insertion rest ih => exact ih (h.undo insertion)

theorem rollbackTrial (h : cache.Consistent) :
    cache.rollbackTrial.Consistent := by
  unfold TypeCache.rollbackTrial
  split
  · exact h
  · next journal outer _ => exact (h.undoAll journal).setTrials outer

end Consistent

/-!
## Histories of operations
-/

inductive Operation
  | insert (key : ExprKey) (ty : Ty)
  | beginTrial
  | rollbackTrial
  | clear

def Operation.run (cache : TypeCache) : Operation → TypeCache
  | .insert key ty => cache.insert key ty
  | .beginTrial => cache.beginTrial
  | .rollbackTrial => cache.rollbackTrial
  | .clear => cache.clear

def after (capacity : Nat) (history : List Operation) : TypeCache :=
  history.foldl Operation.run (new capacity)

theorem capacity_undoAll (cache : TypeCache) (journal : List Insertion) :
    (journal.foldl undo cache).capacity = cache.capacity := by
  induction journal generalizing cache with
  | nil => rfl
  | cons insertion rest ih =>
    have hfirst : (cache.undo insertion).capacity = cache.capacity := by
      unfold undo
      split <;> rfl
    rw [List.foldl_cons, ih, hfirst]

theorem capacity_rollbackTrial (cache : TypeCache) :
    cache.rollbackTrial.capacity = cache.capacity := by
  unfold rollbackTrial
  split
  · rfl
  · exact capacity_undoAll cache _

theorem Operation.capacity_run (cache : TypeCache) (operation : Operation) :
    (operation.run cache).capacity = cache.capacity := by
  cases operation with
  | insert key ty => exact capacity_insert
  | beginTrial => rfl
  | rollbackTrial => exact capacity_rollbackTrial cache
  | clear => rfl

theorem Consistent.run (h : cache.Consistent) (operation : Operation) :
    (operation.run cache).Consistent := by
  cases operation with
  | insert key ty => exact h.insert key ty
  | beginTrial => exact h.beginTrial
  | rollbackTrial => exact h.rollbackTrial
  | clear => exact .clear cache

theorem capacity_after (capacity : Nat) (history : List Operation) :
    (after capacity history).capacity = capacity := by
  unfold after
  have hstart : (new capacity).capacity = capacity := rfl
  generalize new capacity = start at hstart ⊢
  induction history generalizing start with
  | nil => exact hstart
  | cons operation rest ih =>
    apply ih
    rw [Operation.capacity_run, hstart]

theorem Consistent.after (capacity : Nat) (history : List Operation) :
    (after capacity history).Consistent := by
  unfold TypeCache.after
  have hstart : (TypeCache.new capacity).Consistent := .new capacity
  generalize TypeCache.new capacity = start at hstart ⊢
  induction history generalizing start with
  | nil => exact hstart
  | cons operation rest ih =>
    apply ih
    exact hstart.run operation

/-- After every history of operations the queue and the entries hold the same
keys, each once and no more than the capacity.  What is inserted is found.  A
new key goes to the end of the queue; if it meets a full cache, the older half
of the keys goes, but at least one, and no other key changes. -/
theorem queue_agrees_with_entries
    (capacity : Nat)
    (history : List Operation) :
    let cache := after capacity history
    cache.order.Nodup ∧
    (∀ key, key ∈ cache.order ↔ (cache.get? key).isSome) ∧
    cache.order.length = cache.size ∧
    cache.size ≤ capacity ∧
    ∀ key ty, 0 < capacity →
      let later := cache.insert key ty
      later.get? key = some ty ∧
      ((cache.get? key).isSome →
        later.order = cache.order ∧ ∀ other, other ≠ key →
        later.get? other = cache.get? other) ∧
      (cache.get? key = none →
        let lost := if cache.size = capacity then max 1 (cache.size / 2) else 0
        later.order = cache.order.drop lost ++ [key] ∧
        ∀ other, other ≠ key →
          later.get? other = if other ∈ cache.order.take lost then none
          else cache.get? other) := by
  intro cache
  have h : cache.Consistent := .after capacity history
  have hcapacity : cache.capacity = capacity := capacity_after capacity history
  refine ⟨h.nodup, fun key => mem_order_iff h, length_order h, hcapacity ▸
    h.bounded, ?_⟩
  intro key ty hpos later
  have hne : cache.capacity ≠ 0 := by omega
  refine ⟨get?_insert_self h hne, ?_, ?_⟩
  · intro hknown
    constructor
    · exact order_insert_of_some hne hknown
    · intro other hother
      exact get?_insert_of_some hne hknown hother
  · intro hnew lost
    have hlost : lost = cache.surplus := by
      simp only [lost, surplus, hcapacity]
    rw [hlost]
    constructor
    · exact order_insert_of_none h hne hnew
    · intro other hother
      exact get?_insert_of_none h hne hnew hother

end TypeCache
end StaticCheck
