/-!
# The index

An index lists, for each source unit, the descriptors of its implementors. Units keep the place of
their first appearance, and a later list for the same unit replaces the earlier one there: order is
decided by the first writer, content by the last. One page's table and the merged tables of many
pages are both indexes.

Main statements: `get?_insert` and `keys_insert`, what inserting does to the lists and to the order.
-/

namespace Crossref

/-- Pairs of a unit and its list, no unit twice. -/
structure Index (α : Type) where
  entries : List (String × List α)
  distinct : (entries.map Prod.fst).Nodup
deriving DecidableEq

namespace Index

variable {α : Type}

/-! ## Entries -/

/-- Replaces the list for `key` in place, or adds it at the end. -/
def put (key : String) (list : List α) : List (String × List α) → List (String × List α)
  | [] => [(key, list)]
  | e :: es => if e.1 = key then (key, list) :: es else e :: put key list es

theorem keys_put (key : String) (list : List α) (es : List (String × List α)) :
    (put key list es).map Prod.fst =
      if key ∈ es.map Prod.fst then es.map Prod.fst else es.map Prod.fst ++ [key] := by
  fun_induction put key list es with
  | case1 => simp
  | case2 es e h => simp [← h]
  | case3 es e h ih =>
    simp only [List.map_cons, ih, List.mem_cons, Ne.symm h, false_or]
    split <;> simp

theorem nodup_put {key : String} {list : List α} {es : List (String × List α)}
    (h : (es.map Prod.fst).Nodup) : ((put key list es).map Prod.fst).Nodup := by
  rw [keys_put]
  split
  · exact h
  · rename_i hk
    refine List.nodup_append.2 ⟨h, by simp, fun a ha b hb => ?_⟩
    rw [List.mem_singleton.1 hb]
    exact fun hab => hk (hab ▸ ha)

theorem lookup_put (key k : String) (list : List α) (es : List (String × List α)) :
    (put key list es).lookup k = if key = k then some list else es.lookup k := by
  induction es with
  | nil => grind [put]
  | cons e es ih =>
    obtain ⟨key', list'⟩ := e
    grind [put]

/-! ## Operations -/

def empty : Index α := ⟨[], List.nodup_nil⟩

instance : EmptyCollection (Index α) := ⟨empty⟩

instance : Inhabited (Index α) := ⟨empty⟩

/-- The last list for a unit wins, the first place of a unit stays. -/
def insert (index : Index α) (key : String) (list : List α) : Index α :=
  ⟨put key list index.entries, nodup_put index.distinct⟩

/-- Inserts pairs from left to right. -/
def insertAll (index : Index α) (pairs : List (String × List α)) : Index α :=
  pairs.foldl (fun i p => i.insert p.1 p.2) index

/-- The index of a sequence of pairs in which units may repeat. -/
def ofList (pairs : List (String × List α)) : Index α := empty.insertAll pairs

def get? (index : Index α) (key : String) : Option (List α) := index.entries.lookup key

def keys (index : Index α) : List String := index.entries.map Prod.fst

def contains (index : Index α) (key : String) : Bool := (index.get? key).isSome

/-- The number of units, those with empty lists included. -/
def size (index : Index α) : Nat := index.entries.length

def isEmpty (index : Index α) : Bool := index.entries.isEmpty

/-- The entries that list at least one implementor. -/
def populated (index : Index α) : List (String × List α) :=
  index.entries.filter fun e => !e.2.isEmpty

/-- The number of descriptors over all units. -/
def descriptorCount (index : Index α) : Nat := (index.entries.flatMap Prod.snd).length

@[simp] theorem get?_insert (index : Index α) (key k : String) (list : List α) :
    (index.insert key list).get? k = if key = k then some list else index.get? k :=
  lookup_put key k list index.entries

@[simp] theorem keys_insert (index : Index α) (key : String) (list : List α) :
    (index.insert key list).keys =
      if key ∈ index.keys then index.keys else index.keys ++ [key] :=
  keys_put key list index.entries

end Index

end Crossref
