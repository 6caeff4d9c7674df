import StaticCheck.Proofs.Cache.Consistency

/-!
# Taking a trial back

The journal of a trial is replayed from its latest insertion to its first.  A
key may have been replaced, evicted and inserted again in between, any number of
times and also by trials inside the trial, so a single entry of the journal may
find a cache quite unlike the one it was written for.

What carries the proof is that undoing respects suffixes: an eviction inside the
trial takes keys off the front of the queue, and undoing an insertion in what is
left gives what is left of undoing it in the whole.  So each step leaves a cache
from which the journal leads back to a suffix of the cache at the start, and to
that cache itself as long as nothing is evicted.
-/

namespace StaticCheck

/-- What a trial does to a cache: it inserts, and it holds trials that begin and
end inside it. -/
inductive CacheStep
  | insert (key : ExprKey) (ty : Ty)
  | trial (body : List CacheStep)

namespace CacheStep

mutual

def run : CacheStep → TypeCache → TypeCache
  | .insert key ty, cache => cache.insert key ty
  | .trial body, cache => (runAll body cache.beginTrial).rollbackTrial

def runAll : List CacheStep → TypeCache → TypeCache
  | [], cache => cache
  | step :: rest, cache => runAll rest (step.run cache)

end

mutual

/-- Whether a new key meets a full cache on the way. -/
def evicts : CacheStep → TypeCache → Bool
  | .insert key _, cache =>
    cache.capacity != 0 && (cache.get? key).isNone && cache.isFull
  | .trial body, cache => evictsAny body cache.beginTrial

def evictsAny : List CacheStep → TypeCache → Bool
  | [], _ => false
  | step :: rest, cache => step.evicts cache || evictsAny rest (step.run cache)

end

theorem runAll_append (first second : List CacheStep) (cache : TypeCache) :
    runAll (first ++ second) cache = runAll second (runAll first cache) := by
  induction first generalizing cache with
  | nil => rfl
  | cons step rest ih => exact ih (step.run cache)

end CacheStep

namespace TypeCache

variable {cache later : TypeCache} {key : ExprKey} {ty : Ty}

/-!
## What is left of a cache
-/

def contents (cache : TypeCache) : List (ExprKey × Ty) × List ExprKey :=
  (cache.entries, cache.order)

/-- What evictions leave of a cache. -/
structure Remains (rest cache : TypeCache) : Prop where
  entries : rest.entries <:+ cache.entries
  order : rest.order <:+ cache.order

theorem Remains.of_contents (h : later.contents = cache.contents) :
    later.Remains cache := by
  obtain ⟨hentries, horder⟩ := Prod.mk.inj h
  constructor
  · exact hentries ▸ List.suffix_refl _
  · exact horder ▸ List.suffix_refl _

theorem Remains.trans {a b c : TypeCache} (hab : a.Remains b)
    (hbc : b.Remains c) : a.Remains c where
  entries := hab.entries.trans hbc.entries
  order := hab.order.trans hbc.order

theorem Remains.get?_eq (h : later.Remains cache) (hlater : later.Consistent)
    (hcache : cache.Consistent) (key : ExprKey) :
    later.get? key = if key ∈ later.order then cache.get? key else none := by
  by_cases hkey : key ∈ later.order
  · rw [if_pos hkey]
    obtain ⟨front, hfront⟩ := h.entries
    have hnodup : (front.map Prod.fst ++ later.entries.map Prod.fst).Nodup := by
      rw [← List.map_append, hfront, ← hcache.keys]
      exact hcache.nodup
    have hgone : front.lookup key = none := by
      rw [lookup_eq_none_iff]
      intro hmem
      rw [hlater.keys] at hkey
      exact (List.nodup_append.mp hnodup).2.2 key hmem key hkey rfl
    unfold get?
    rw [← hfront, List.lookup_append, hgone]
    rfl
  · rw [if_neg hkey]
    exact (get?_eq_none_iff hlater).mpr hkey

/-!
## Undoing insertions
-/

theorem Remains.undo (h : later.Remains cache) (insertion : Insertion) :
    (later.undo insertion).Remains (cache.undo insertion) := by
  unfold TypeCache.undo
  split
  · exact ⟨h.entries.map _, h.order⟩
  · exact ⟨h.entries.filter _, h.order.filter _⟩

theorem Remains.undoAll (h : later.Remains cache) (journal : List Insertion) :
    (journal.foldl TypeCache.undo later).Remains
      (journal.foldl TypeCache.undo cache) := by
  induction journal generalizing later cache with
  | nil => exact h
  | cons insertion rest ih => exact ih (h.undo insertion)

theorem contents_undoAll (h : later.contents = cache.contents)
    (journal : List Insertion) :
    (journal.foldl undo later).contents =
      (journal.foldl undo cache).contents := by
  induction journal generalizing later cache with
  | nil => exact h
  | cons insertion rest ih =>
    apply ih
    obtain ⟨hentries, horder⟩ := Prod.mk.inj h
    unfold undo
    split <;> simp [contents, hentries, horder]

theorem replace_replace (entries : List (ExprKey × Ty)) (key : ExprKey)
    (ty previous : Ty) :
    replace (replace entries key ty) key previous =
      replace entries key previous := by
  unfold replace
  rw [List.map_map]
  apply List.map_congr_left
  intro entry _
  by_cases hkey : entry.1 = key
  · simp [hkey]
  · simp [hkey]

theorem replace_eq_self_of_not_mem {entries : List (ExprKey × Ty)}
    (hkey : key ∉ entries.map Prod.fst) : replace entries key ty = entries := by
  have hsame : ∀ entry ∈ entries, (if entry.1 = key then (key, ty) else entry) =
      entry := by
    intro entry hentry
    rw [if_neg]
    intro heq
    exact hkey (List.mem_map.mpr ⟨entry, hentry, heq⟩)
  unfold replace
  rw [List.map_congr_left hsame, List.map_id']

theorem replace_eq_self {entries : List (ExprKey × Ty)}
    (hnodup : (entries.map Prod.fst).Nodup)
    (hty : entries.lookup key = some ty) :
    replace entries key ty = entries := by
  induction entries with
  | nil => rfl
  | cons entry rest ih =>
    obtain ⟨other, old⟩ := entry
    obtain ⟨hother, hrest⟩ := List.nodup_cons.mp hnodup
    by_cases heq : other = key
    · subst other
      have hold : old = ty := by simpa using hty
      have hcons : replace ((key, old) :: rest) key ty = (key, ty) ::
          replace rest key ty := by
        simp [replace]
      rw [hcons, hold, replace_eq_self_of_not_mem hother]
    · have hbeq : (key == other) = false := by simp [Ne.symm heq]
      rw [List.lookup_cons, hbeq] at hty
      have hcons : replace ((other, old) :: rest) key ty =
          (other, old) :: replace rest key ty := by
        simp [replace, heq]
      rw [hcons, ih hrest hty]

theorem contents_undo_insert (h : cache.Consistent)
    (hcapacity : cache.capacity ≠ 0) (key : ExprKey) (ty : Ty) :
    ((cache.insert key ty).undo ⟨key, cache.get? key⟩).contents =
      if cache.get? key = none then cache.withRoom.contents
      else cache.contents := by
  cases hknown : cache.get? key with
  | some previous =>
    have hnodup : (cache.entries.map Prod.fst).Nodup := h.keys ▸ h.nodup
    rw [insert_of_some hcapacity hknown]
    simp only [undo, contents, replace_replace, replace_eq_self hnodup hknown]
    rfl
  | none =>
    have hnew : key ∉ cache.order := (get?_eq_none_iff h).mp hknown
    have hentries : key ∉ (cache.entries.drop cache.surplus).map Prod.fst := by
      rw [List.map_drop, ← h.keys]
      exact fun hmem => hnew (List.mem_of_mem_drop hmem)
    have horder :
        (cache.order.drop cache.surplus).filter (fun other => other ≠ key) =
        cache.order.drop cache.surplus := by
      rw [List.filter_eq_self]
      intro other hother
      have hne : other ≠ key := by
        rintro rfl
        exact hnew (List.mem_of_mem_drop hother)
      simp [hne]
    have hremoved :
        remove (cache.entries.drop cache.surplus ++ [(key, ty)]) key =
        cache.entries.drop cache.surplus := by
      have hsplit :
          remove (cache.entries.drop cache.surplus ++ [(key, ty)]) key =
          remove (cache.entries.drop cache.surplus) key ++
          remove [(key, ty)] key :=
        List.filter_append _ _
      rw [hsplit, remove_eq_self hentries]
      simp [remove]
    rw [insert_of_none hcapacity hknown, withRoom_eq h]
    simp only [undo, contents, hremoved, List.filter_append, horder]
    simp

theorem trials_insert (hcapacity : cache.capacity ≠ 0) :
    (cache.insert key ty).trials = note cache.trials ⟨key, cache.get? key⟩ := by
  cases hknown : cache.get? key with
  | some previous => rw [insert_of_some hcapacity hknown]
  | none => rw [insert_of_none hcapacity hknown]

/-!
## From step to step
-/

/-- A later state of a cache inside a trial.  What was noted since then leads
from it back to what is left of the cache, and to all of the cache if nothing
was evicted. -/
structure Reversible (cache later : TypeCache) (evicted : Bool) : Prop where
  consistent : later.Consistent
  capacity : later.capacity = cache.capacity
  back : ∀ journal outer, cache.trials = journal :: outer →
    ∃ noted, later.trials = (noted ++ journal) :: outer ∧
      (noted.foldl undo later).Remains cache ∧
      (evicted = false → (noted.foldl undo later).contents = cache.contents)

namespace Reversible

theorem refl (h : cache.Consistent) : Reversible cache cache false where
  consistent := h
  capacity := rfl
  back _ _ htrials := ⟨[], htrials, .of_contents rfl, fun _ => rfl⟩

theorem trans {a b c : TypeCache} {first second : Bool}
    (hab : Reversible a b first) (hbc : Reversible b c second) :
    Reversible a c (first || second) where
  consistent := hbc.consistent
  capacity := hbc.capacity.trans hab.capacity
  back journal outer htrials := by
    obtain ⟨early, hearly, hremains, hsame⟩ := hab.back journal outer htrials
    obtain ⟨late, hlate, hlateRemains, hlateSame⟩ := hbc.back _ outer hearly
    -- The journal holds the latest note first, so the later notes are taken
    -- back before the others.
    refine ⟨late ++ early, ?_, ?_, ?_⟩
    · rw [hlate, List.append_assoc]
    · rw [List.foldl_append]
      exact (hlateRemains.undoAll early).trans hremains
    · intro hnone
      obtain ⟨hfirst, hsecond⟩ := Bool.or_eq_false_iff.mp hnone
      rw [List.foldl_append, contents_undoAll (hlateSame hsecond) early]
      exact hsame hfirst

theorem insert (h : cache.Consistent) (key : ExprKey) (ty : Ty) :
    Reversible cache (cache.insert key ty)
      ((CacheStep.insert key ty).evicts cache) := by
  refine ⟨h.insert key ty, capacity_insert, fun journal outer htrials => ?_⟩
  by_cases hcapacity : cache.capacity = 0
  · rw [insert_of_zero hcapacity]
    exact ⟨[], htrials, .of_contents rfl, fun _ => rfl⟩
  have hundone := contents_undo_insert h hcapacity key ty
  have hroom : cache.withRoom.Remains cache := by
    rw [withRoom_eq h]
    exact ⟨List.drop_suffix _ _, List.drop_suffix _ _⟩
  refine ⟨[⟨key, cache.get? key⟩], ?_, ?_, ?_⟩
  · rw [trials_insert hcapacity, htrials]
    rfl
  · cases hknown : cache.get? key with
    | some previous =>
      rw [hknown] at hundone
      exact .of_contents hundone
    | none =>
      rw [hknown] at hundone
      exact (Remains.of_contents hundone).trans hroom
  · intro hnone
    cases hknown : cache.get? key with
    | some previous =>
      rw [hknown] at hundone
      exact hundone
    | none =>
      have hfull : cache.isFull = false := by
        simpa [CacheStep.evicts, hcapacity, hknown] using hnone
      rw [hknown] at hundone
      unfold withRoom at hundone
      rw [hfull] at hundone
      exact hundone

theorem rollback {evicted : Bool}
    (h : Reversible cache.beginTrial later evicted) :
    later.rollbackTrial.Remains cache ∧ later.rollbackTrial.trials =
      cache.trials ∧ (evicted = false → later.rollbackTrial = cache) := by
  obtain ⟨noted, htrials, hremains, hsame⟩ := h.back [] cache.trials rfl
  have hcapacity : (noted.foldl undo later).capacity = cache.capacity := by
    rw [capacity_undoAll]
    exact h.capacity
  have hrollback :
      later.rollbackTrial =
      { noted.foldl undo later with trials := cache.trials } := by
    unfold rollbackTrial
    rw [htrials, List.append_nil]
  rw [hrollback]
  refine ⟨⟨hremains.entries, hremains.order⟩, rfl, ?_⟩
  intro hnone
  obtain ⟨hentries, horder⟩ := Prod.mk.inj (hsame hnone)
  dsimp only
  rw [hcapacity, hentries, horder]
  rfl

theorem trial {evicted : Bool} (h : Reversible cache.beginTrial later evicted) :
    Reversible cache later.rollbackTrial evicted := by
  obtain ⟨hremains, htrials, hsame⟩ := h.rollback
  refine ⟨h.consistent.rollbackTrial, ?_, fun journal outer houter => ?_⟩
  · rw [capacity_rollbackTrial]
    exact h.capacity
  -- A trial inside of a trial is over when it ends: it notes nothing in the
  -- journal around it.
  · refine ⟨[], htrials.trans houter, hremains, ?_⟩
    intro hnone
    rw [List.foldl_nil, hsame hnone]

end Reversible

mutual

theorem Reversible.run {cache : TypeCache} (h : cache.Consistent)
    (step : CacheStep) :
    Reversible cache (step.run cache) (step.evicts cache) := by
  cases step with
  | insert key ty => exact .insert h key ty
  | trial body => exact .trial (.runAll h.beginTrial body)

theorem Reversible.runAll {cache : TypeCache} (h : cache.Consistent)
    (steps : List CacheStep) :
    Reversible cache (CacheStep.runAll steps cache)
      (CacheStep.evictsAny steps cache) := by
  cases steps with
  | nil => exact .refl h
  | cons step rest =>
    have hfirst := Reversible.run h step
    exact hfirst.trans (.runAll hfirst.consistent rest)

end

/-- Whatever happened to a cache before and whatever a trial does to it, with
any evictions and any trials inside, the end of the trial leaves the latest keys
of the cache before the trial, with the types they had then, and the trials that
were open then.  If the trial evicts nothing, it leaves the cache as it was. -/
theorem rollback_leaves_latest_keys
    (capacity : Nat)
    (history : List Operation)
    (body : List CacheStep) :
    let cache := after capacity history
    let restored := (CacheStep.runAll body cache.beginTrial).rollbackTrial
    restored.order <:+ cache.order ∧
    (∀ key, restored.get? key = if key ∈ restored.order then cache.get? key
      else none) ∧
    restored.trials = cache.trials ∧
    (CacheStep.evictsAny body cache.beginTrial = false → restored = cache) := by
  intro cache restored
  have hcache : cache.Consistent := .after capacity history
  have hbody := Reversible.runAll hcache.beginTrial body
  obtain ⟨hremains, htrials, hsame⟩ := hbody.rollback
  refine ⟨hremains.order, ?_, htrials, hsame⟩
  exact hremains.get?_eq hbody.consistent.rollbackTrial hcache

end TypeCache
end StaticCheck
