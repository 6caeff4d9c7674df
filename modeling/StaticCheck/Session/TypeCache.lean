import StaticCheck.Lang.Expr

/-!
# Remembered types

The types of expressions inferred so far, limited in number.  A queue holds the
keys in the order in which they were inserted: when a new key meets a full cache
the older half is dropped.  While a trial is open every insertion is noted in
its journal, and the end of the trial takes the insertions back.
-/

namespace StaticCheck

structure ExprKey where
  module : Nat
  node : NodeId
  form : Form
  deriving DecidableEq, Repr, Inhabited

/-- An insertion and the type it replaced; `none` if the key was new. -/
structure Insertion where
  key : ExprKey
  replaced : Option Ty

structure TypeCache where
  capacity : Nat
  entries : List (ExprKey × Ty) := []
  /-- The remembered keys, the oldest first. -/
  order : List ExprKey := []
  /-- Journals of the open trials, the innermost first; each has its latest
  insertion first. -/
  trials : List (List Insertion) := []
  deriving Inhabited

namespace TypeCache

def new (capacity : Nat) : TypeCache := { capacity }

def get? (cache : TypeCache) (key : ExprKey) : Option Ty :=
  cache.entries.lookup key

def size (cache : TypeCache) : Nat := cache.entries.length

def isEmpty (cache : TypeCache) : Bool := cache.entries.isEmpty

def note (trials : List (List Insertion)) (insertion : Insertion) :
    List (List Insertion) :=
  match trials with
  | [] => []
  | journal :: outer => (insertion :: journal) :: outer

def replace (entries : List (ExprKey × Ty)) (key : ExprKey) (ty : Ty) :
    List (ExprKey × Ty) :=
  entries.map fun entry => if entry.1 = key then (key, ty) else entry

def remove (entries : List (ExprKey × Ty)) (key : ExprKey) :
    List (ExprKey × Ty) :=
  entries.filter fun entry => entry.1 ≠ key

def evictionCount (size : Nat) : Nat := max (size / 2) 1

def dropOldest : Nat → TypeCache → TypeCache
  | 0, cache => cache
  | count + 1, cache =>
    match cache.order with
    | [] => cache
    | key :: order =>
      dropOldest count { cache with entries := remove cache.entries key, order }

def isFull (cache : TypeCache) : Bool := cache.capacity ≤ cache.size

def withRoom (cache : TypeCache) : TypeCache :=
  if cache.isFull then cache.dropOldest (evictionCount cache.size) else cache

/-- Remembers a type.  A known key keeps its age. -/
def insert (cache : TypeCache) (key : ExprKey) (ty : Ty) : TypeCache :=
  if cache.capacity = 0 then cache
  else
    match cache.get? key with
    | some previous =>
      { cache with
        entries := replace cache.entries key ty
        trials := note cache.trials ⟨key, some previous⟩ }
    | none =>
      { cache with
        entries := cache.withRoom.entries ++ [(key, ty)]
        order := cache.withRoom.order ++ [key]
        trials := note cache.trials ⟨key, none⟩ }

def beginTrial (cache : TypeCache) : TypeCache :=
  { cache with trials := [] :: cache.trials }

/-- Takes one insertion back.  A replaced type returns only if its key is still
there. -/
def undo (cache : TypeCache) (insertion : Insertion) : TypeCache :=
  match insertion.replaced with
  | some ty => { cache with entries := replace cache.entries insertion.key ty }
  | none =>
    { cache with
      entries := remove cache.entries insertion.key
      order := cache.order.filter fun key => key ≠ insertion.key }

/-- Ends the innermost trial and takes its insertions back, the latest first. -/
def rollbackTrial (cache : TypeCache) : TypeCache :=
  match cache.trials with
  | [] => cache
  | journal :: outer => { journal.foldl undo cache with trials := outer }

def clear (cache : TypeCache) : TypeCache :=
  { cache with entries := [], order := [], trials := [] }

end TypeCache
end StaticCheck
