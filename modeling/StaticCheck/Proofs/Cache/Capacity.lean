import StaticCheck.Proofs.Cache.Consistency

/-!
# Caches of different capacity

What an insertion and the end of a trial can bring into a cache, and that both
do the same in a cache of another capacity as long as neither cache is full.
-/

namespace StaticCheck
namespace TypeCache

/-- The cache remembers the type for the key, or would remember it again once
its trials are taken back. -/
def Records (cache : TypeCache) (key : ExprKey) (ty : Ty) : Prop :=
  (key, ty) ∈ cache.entries ∨ ∃ journal ∈ cache.trials, ⟨key, some ty⟩ ∈ journal

def Holds (cache : TypeCache) (ty : Ty) : Prop :=
  (∃ key, (key, ty) ∈ cache.entries) ∨
    ∃ journal ∈ cache.trials, ∃ insertion ∈ journal,
    insertion.replaced = some ty

variable {cache : TypeCache} {key found : ExprKey} {ty other : Ty}

theorem holds_iff_records : cache.Holds ty ↔ ∃ key, cache.Records key ty := by
  constructor
  · rintro (⟨key, hentry⟩ | ⟨journal, hjournal, ⟨key, _⟩, hinsertion, rfl⟩)
    · exact ⟨key, .inl hentry⟩
    · exact ⟨key, .inr ⟨journal, hjournal, hinsertion⟩⟩
  · rintro ⟨key, hentry | ⟨journal, hjournal, hinsertion⟩⟩
    · exact .inl ⟨key, hentry⟩
    · exact .inr ⟨journal, hjournal, ⟨key, some ty⟩, hinsertion, rfl⟩

theorem records_of_get? (h : cache.get? key = some ty) :
    cache.Records key ty := by
  obtain ⟨before, after, hsplit, -⟩ := List.lookup_eq_some_iff.mp h
  exact .inl (by simp [hsplit])

theorem holds_of_get? (h : cache.get? key = some ty) : cache.Holds ty := by
  exact holds_iff_records.mpr ⟨key, records_of_get? h⟩

theorem mem_replace {entries : List (ExprKey × Ty)}
    (h : (found, other) ∈ replace entries key ty) :
    (found = key ∧ other = ty) ∨ (found, other) ∈ entries := by
  obtain ⟨entry, hentry, heq⟩ := List.mem_map.mp h
  split at heq
  · cases heq
    exact .inl ⟨rfl, rfl⟩
  · cases heq
    exact .inr hentry

theorem of_mem_note {trials : List (List Insertion)}
    {insertion found : Insertion} {journal : List Insertion}
    (hjournal : journal ∈ note trials insertion) (hfound : found ∈ journal) :
    found = insertion ∨ ∃ journal ∈ trials, found ∈ journal := by
  cases trials with
  | nil => cases hjournal
  | cons first outer =>
    rcases List.mem_cons.mp hjournal with rfl | houter
    · rcases List.mem_cons.mp hfound with rfl | hfirst
      · exact .inl rfl
      · exact .inr ⟨first, List.mem_cons_self, hfirst⟩
    · exact .inr ⟨journal, List.mem_cons_of_mem first houter, hfound⟩

theorem mem_of_mem_dropOldest {entry : ExprKey × Ty} (count : Nat)
    (h : entry ∈ (cache.dropOldest count).entries) : entry ∈ cache.entries := by
  induction count generalizing cache with
  | zero => exact h
  | succ count ih =>
    unfold dropOldest at h
    cases horder : cache.order with
    | nil =>
      rw [horder] at h
      exact h
    | cons oldest order =>
      rw [horder] at h
      exact (List.mem_filter.mp (ih h)).1

theorem mem_of_mem_withRoom {entry : ExprKey × Ty}
    (h : entry ∈ cache.withRoom.entries) : entry ∈ cache.entries := by
  unfold withRoom at h
  split at h
  · exact mem_of_mem_dropOldest _ h
  · exact h

theorem records_of_insert (h : (cache.insert key ty).Records found other) :
    (found = key ∧ other = ty) ∨ cache.Records found other := by
  by_cases hcapacity : cache.capacity = 0
  · rw [insert_of_zero hcapacity] at h
    exact .inr h
  cases hknown : cache.get? key with
  | some previous =>
    rw [insert_of_some hcapacity hknown] at h
    rcases h with hentry | ⟨journal, hjournal, hinsertion⟩
    · exact (mem_replace hentry).imp_right .inl
    · rcases of_mem_note hjournal hinsertion with hnoted | hold
      · cases hnoted
        exact .inr (records_of_get? hknown)
      · exact .inr (.inr hold)
  | none =>
    rw [insert_of_none hcapacity hknown] at h
    rcases h with hentry | ⟨journal, hjournal, hinsertion⟩
    · rcases List.mem_append.mp hentry with hold | hnew
      · exact .inr (.inl (mem_of_mem_withRoom hold))
      · cases List.mem_singleton.mp hnew
        exact .inl ⟨rfl, rfl⟩
    · rcases of_mem_note hjournal hinsertion with hnoted | hold
      · cases hnoted
      · exact .inr (.inr hold)

theorem holds_of_insert (h : (cache.insert key ty).Holds other) :
    other = ty ∨ cache.Holds other := by
  obtain ⟨found, hfound⟩ := holds_iff_records.mp h
  rcases records_of_insert hfound with ⟨-, rfl⟩ | hold
  · exact .inl rfl
  · exact .inr (holds_iff_records.mpr ⟨found, hold⟩)

theorem records_of_beginTrial (h : cache.beginTrial.Records key ty) :
    cache.Records key ty := by
  rcases h with hentry | ⟨journal, hjournal, hinsertion⟩
  · exact .inl hentry
  · rcases List.mem_cons.mp hjournal with rfl | houter
    · cases hinsertion
    · exact .inr ⟨journal, houter, hinsertion⟩

theorem holds_of_beginTrial (h : cache.beginTrial.Holds ty) :
    cache.Holds ty := by
  obtain ⟨key, hkey⟩ := holds_iff_records.mp h
  exact holds_iff_records.mpr ⟨key, records_of_beginTrial hkey⟩

theorem mem_undo {insertion : Insertion}
    (h : (key, ty) ∈ (cache.undo insertion).entries) :
    insertion = ⟨key, some ty⟩ ∨ (key, ty) ∈ cache.entries := by
  obtain ⟨noted, replaced⟩ := insertion
  cases replaced with
  | none => exact .inr (List.mem_filter.mp h).1
  | some old =>
    refine (mem_replace h).imp_left ?_
    rintro ⟨rfl, rfl⟩
    rfl

theorem mem_undoAll {journal : List Insertion}
    (h : (key, ty) ∈ (journal.foldl undo cache).entries) :
    ⟨key, some ty⟩ ∈ journal ∨ (key, ty) ∈ cache.entries := by
  induction journal generalizing cache with
  | nil => exact .inr h
  | cons insertion rest ih =>
    rcases ih h with hfound | hentry
    · exact .inl (List.mem_cons_of_mem insertion hfound)
    · refine (mem_undo hentry).imp_left ?_
      rintro rfl
      exact List.mem_cons_self

theorem records_of_rollbackTrial (h : cache.rollbackTrial.Records key ty) :
    cache.Records key ty := by
  unfold rollbackTrial at h
  split at h
  · exact h
  · next journal outer htrials =>
      rcases h with hentry | ⟨other, hother, hinsertion⟩
      · rcases mem_undoAll hentry with hfound | hold
        · exact .inr ⟨journal, by simp [htrials], hfound⟩
        · exact .inl hold
      · exact .inr
          ⟨other, by simp [htrials, show other ∈ outer from hother], hinsertion⟩

theorem holds_of_rollbackTrial (h : cache.rollbackTrial.Holds ty) :
    cache.Holds ty := by
  obtain ⟨key, hkey⟩ := holds_iff_records.mp h
  exact holds_iff_records.mpr ⟨key, records_of_rollbackTrial hkey⟩

theorem mem_order_of_mem_order_insert (h : cache.Consistent)
    (hfound : found ∈ (cache.insert key ty).order) :
    found = key ∨ found ∈ cache.order := by
  by_cases hcapacity : cache.capacity = 0
  · rw [insert_of_zero hcapacity] at hfound
    exact .inr hfound
  cases hknown : cache.get? key with
  | some previous =>
    have hsome := Option.isSome_iff_exists.mpr ⟨previous, hknown⟩
    rw [order_insert_of_some hcapacity hsome] at hfound
    exact .inr hfound
  | none =>
    rw [order_insert_of_none h hcapacity hknown] at hfound
    rcases List.mem_append.mp hfound with hold | hnew
    · exact .inr (List.mem_of_mem_drop hold)
    · exact .inl (List.mem_singleton.mp hnew)

theorem mem_order_of_mem_order_undoAll {journal : List Insertion}
    (hfound : found ∈ (journal.foldl undo cache).order) :
    found ∈ cache.order := by
  induction journal generalizing cache with
  | nil => exact hfound
  | cons insertion rest ih =>
    have hundone := ih hfound
    unfold undo at hundone
    split at hundone
    · exact hundone
    · exact (List.mem_filter.mp hundone).1

theorem mem_order_of_mem_order_rollbackTrial
    (hfound : found ∈ cache.rollbackTrial.order) : found ∈ cache.order := by
  unfold rollbackTrial at hfound
  split at hfound
  · exact hfound
  · exact mem_order_of_mem_order_undoAll hfound

/-!
A cache that never meets its capacity does not depend on it.
-/

def withCapacity (cache : TypeCache) (capacity : Nat) : TypeCache :=
  { cache with capacity }

variable {capacity : Nat}

theorem withRoom_of_lt (h : cache.size < cache.capacity) :
    cache.withRoom = cache := by
  have hfull : ¬cache.isFull = true := by simpa [isFull] using h
  unfold withRoom
  rw [if_neg hfull]

theorem insert_withCapacity (hcapacity : cache.capacity ≠ 0)
    (hother : capacity ≠ 0)
    (hroom : cache.get? key = none → cache.size < cache.capacity ∧
      cache.size < capacity) :
    (cache.withCapacity capacity).insert key ty =
      (cache.insert key ty).withCapacity capacity := by
  cases hknown : cache.get? key with
  | some previous =>
    have htwin : (cache.withCapacity capacity).insert key ty = _ :=
      insert_of_some hother hknown
    rw [insert_of_some hcapacity hknown, htwin]
    rfl
  | none =>
    have htwin : (cache.withCapacity capacity).insert key ty = _ :=
      insert_of_none hother hknown
    have hwithRoom : (cache.withCapacity capacity).withRoom =
        cache.withCapacity capacity :=
      withRoom_of_lt (hroom hknown).2
    rw [insert_of_none hcapacity hknown, htwin, hwithRoom,
      withRoom_of_lt (hroom hknown).1]
    rfl

theorem undo_withCapacity (insertion : Insertion) :
    (cache.withCapacity capacity).undo insertion =
      (cache.undo insertion).withCapacity capacity := by
  unfold undo
  split <;> rfl

theorem undoAll_withCapacity (journal : List Insertion) :
    journal.foldl undo (cache.withCapacity capacity) =
      (journal.foldl undo cache).withCapacity capacity := by
  induction journal generalizing cache with
  | nil => rfl
  | cons insertion rest ih =>
    rw [List.foldl_cons, List.foldl_cons, undo_withCapacity, ih]

theorem rollbackTrial_withCapacity :
    (cache.withCapacity capacity).rollbackTrial =
      cache.rollbackTrial.withCapacity capacity := by
  unfold rollbackTrial
  have htrials : (cache.withCapacity capacity).trials = cache.trials := rfl
  rw [htrials]
  split
  · rfl
  · rw [undoAll_withCapacity]
    rfl

end TypeCache

end StaticCheck
