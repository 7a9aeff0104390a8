import Crossref.Registry.Run

/-!
# The catalog

Every trait has an index of its own, so a catalog holds one registry per trait. A registry is made
the first time that its trait is named by a merge or an attachment, and the catalog lists them in
the order of their names.

Main statement: `get?_update`, a call on one trait leaves the registries of the others alone.
-/

namespace Crossref

namespace Catalog

/-! ## Sorted entries -/

/-- Gives `key` a value, at its place in the order. -/
def place {β : Type} (key : String) (value : β) : List (String × β) → List (String × β)
  | [] => [(key, value)]
  | e :: es =>
    if e.1 = key then (key, value) :: es
    else if key < e.1 then (key, value) :: e :: es
    else e :: place key value es

/-- The names of the entries increase. -/
def Increasing {β : Type} (es : List (String × β)) : Prop :=
  (es.map Prod.fst).Pairwise (· < ·)

theorem mem_keys_place {β : Type} {key k : String} {value : β} {es : List (String × β)} :
    k ∈ (place key value es).map Prod.fst ↔ k = key ∨ k ∈ es.map Prod.fst := by
  fun_induction place key value es with
  | case1 => simp
  | case2 es e h => simp [← h]
  | case3 => simp
  | case4 es e h hlt ih =>
    simp only [List.map_cons, List.mem_cons, ih]
    exact or_left_comm

theorem increasing_place {β : Type} {key : String} {value : β} {es : List (String × β)}
    (h : Increasing es) : Increasing (place key value es) := by
  unfold Increasing at *
  fun_induction place key value es with
  | case1 => simp
  | case2 es e he => simpa [he] using h
  | case3 es e he hlt =>
    have hes := (List.pairwise_cons.1 h).1
    refine List.pairwise_cons.2 ⟨fun k hk => ?_, h⟩
    rcases List.mem_cons.1 hk with rfl | hk
    · exact hlt
    · exact String.lt_trans hlt (hes k hk)
  | case4 es e he hlt ih =>
    have ⟨hes, ht⟩ := List.pairwise_cons.1 h
    refine List.pairwise_cons.2 ⟨fun k hk => ?_, ih ht⟩
    rcases mem_keys_place.1 hk with rfl | hk
    · exact Decidable.byContradiction fun hn =>
        he (String.le_antisymm (String.not_lt.1 hlt) (String.not_lt.1 hn))
    · exact hes k hk

theorem lookup_place {β : Type} (key k : String) (value : β) (es : List (String × β)) :
    (place key value es).lookup k = if key = k then some value else es.lookup k := by
  induction es with
  | nil => grind [place]
  | cons e es ih =>
    obtain ⟨key', value'⟩ := e
    grind [place]

end Catalog

structure Catalog (α : Type) where
  settings : RegistrySettings := {}
  registries : List (String × Registry α) := []
  increasing : Catalog.Increasing registries := by exact List.Pairwise.nil

namespace Catalog

variable {α β : Type}

/-! ## Operations -/

def get? (c : Catalog α) (name : String) : Option (Registry α) := c.registries.lookup name

/-- The registry of a trait as the next call finds it. -/
def getOrNew (c : Catalog α) (name : String) : Registry α :=
  (c.get? name).getD { settings := c.settings, label := name }

def set (c : Catalog α) (name : String) (r : Registry α) : Catalog α :=
  { settings := c.settings
    registries := place name r c.registries
    increasing := increasing_place c.increasing }

/-- What one call leaves behind: the catalog, the answer, and the delivery made within the call. -/
structure Step (α β : Type) where
  catalog : Catalog α
  answer : β
  delivery : Option (Delivery α) := none

/-- Makes a call on the registry of a trait, which is made if it was not there. -/
def update (c : Catalog α) (name : String) (call : Registry α → Registry.Step α β) : Step α β :=
  let s := call (c.getOrNew name)
  ⟨c.set name s.registry, s.answer, s.delivery⟩

/-- Makes a call on the registry of a trait, if there is one. -/
def update? (c : Catalog α) (name : String) (call : Registry α → Registry.Step α β) :
    Step α (Option β) :=
  match c.get? name with
  | none => { catalog := c, answer := none }
  | some r =>
    let s := call r
    ⟨c.set name s.registry, some s.answer, s.delivery⟩

def merge (c : Catalog α) (name : String) (table : Index α) : Step α MergeReport :=
  c.update name fun r => r.merge table

def attach (c : Catalog α) (name consumer : String) : Step α Attachment :=
  c.update name fun r => r.attach consumer

/-- The traits that have a registry, in increasing order. -/
def names (c : Catalog α) : List String := c.registries.map Prod.fst

def size (c : Catalog α) : Nat := c.registries.length

def isEmpty (c : Catalog α) : Bool := c.registries.isEmpty

/-- The traits for which a unit lists at least one implementor. -/
def implementedBy (c : Catalog α) (key : String) : List String :=
  (c.registries.filter fun e => (e.2.index.get? key).any fun list => !list.isEmpty).map Prod.fst

@[simp] theorem get?_set (c : Catalog α) (name k : String) (r : Registry α) :
    (c.set name r).get? k = if name = k then some r else c.get? k :=
  lookup_place name k r c.registries

theorem get?_update (c : Catalog α) (name k : String) (call : Registry α → Registry.Step α β) :
    (c.update name call).catalog.get? k =
      if name = k then some (call (c.getOrNew name)).registry else c.get? k :=
  get?_set c name k _

end Catalog

end Crossref
