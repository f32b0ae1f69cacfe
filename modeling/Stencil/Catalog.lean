/-! A catalog keeps one value per key, in the order in which the keys first came. -/

namespace Stencil

variable {β : Type}

/-- Changes the entry of `key` in place, or makes one at the end. -/
def updateEntry (key : String) (f : Option β → β) : List (String × β) → List (String × β)
  | [] => [(key, f none)]
  | (k, b) :: rest =>
    if k = key then (k, f (some b)) :: rest else (k, b) :: updateEntry key f rest

theorem keys_updateEntry (key : String) (f : Option β → β) (entries : List (String × β)) :
    (updateEntry key f entries).map Prod.fst =
      if key ∈ entries.map Prod.fst then entries.map Prod.fst
      else entries.map Prod.fst ++ [key] := by
  induction entries with
  | nil => simp [updateEntry]
  | cons entry rest ih =>
    obtain ⟨k, b⟩ := entry
    by_cases h : k = key
    · simp [updateEntry, h]
    · have h' : ¬ key = k := fun e => h e.symm
      simp only [updateEntry, h, if_false, List.map_cons, List.mem_cons, h', false_or, ih]
      split <;> simp

structure Catalog (β : Type) where
  entries : List (String × β) := []
  distinct : (entries.map Prod.fst).Nodup := by simp

namespace Catalog

def keys (c : Catalog β) : List String :=
  c.entries.map Prod.fst

def size (c : Catalog β) : Nat :=
  c.entries.length

def isEmpty (c : Catalog β) : Bool :=
  c.entries.isEmpty

def get? (c : Catalog β) (key : String) : Option β :=
  c.entries.lookup key

def has (c : Catalog β) (key : String) : Bool :=
  c.keys.contains key

def update (c : Catalog β) (key : String) (f : Option β → β) : Catalog β where
  entries := updateEntry key f c.entries
  distinct := by
    rw [keys_updateEntry]
    split
    · exact c.distinct
    · next h =>
      rw [List.nodup_append]
      refine ⟨c.distinct, by simp, ?_⟩
      intro a ha b hb e
      simp only [List.mem_singleton] at hb
      exact h (hb ▸ e ▸ ha)

/-- Gives `key` a value; a key that is present keeps its place. -/
def put (c : Catalog β) (key : String) (value : β) : Catalog β :=
  c.update key fun _ => value

/-- Same keys with the same values, in any order. -/
def same [BEq β] (c d : Catalog β) : Bool :=
  c.size == d.size && c.entries.all fun (key, value) => d.get? key == some value

end Catalog

end Stencil
