/-!
# Indexes

A finite map as the list of its keys with their values. Inserting replaces, so that every key stands
in the list at most once.

* `find?_insert_self`, `find?_insert_of_ne`, `find?_erase_self`, `find?_erase_of_ne` say what
  looking up gives after a change.
* `add`, `remove` work on indexes whose values are lists, none of which is kept empty.
-/

namespace SymbolAtlas

/-- Values by key. -/
structure Index (κ β : Type) where
  entries : List (κ × β) := []
  deriving Repr

namespace Index

variable {κ β : Type} [DecidableEq κ]

/-- The value under a key. -/
def find? (ix : Index κ β) (key : κ) : Option β :=
  (ix.entries.find? fun e => e.1 = key).map Prod.snd

/-- The index without a key. -/
def erase (ix : Index κ β) (key : κ) : Index κ β :=
  ⟨ix.entries.filter fun e => e.1 ≠ key⟩

/-- The index with a value under a key, in place of any other. -/
def insert (ix : Index κ β) (key : κ) (value : β) : Index κ β :=
  ⟨(ix.erase key).entries ++ [(key, value)]⟩

/-- The entries whose value satisfies `p`. -/
def keep (ix : Index κ β) (p : β → Bool) : Index κ β :=
  ⟨ix.entries.filter fun e => p e.2⟩

/-- The number of keys. -/
def size (ix : Index κ β) : Nat := ix.entries.length

theorem find?_erase_self (ix : Index κ β) (key : κ) : (ix.erase key).find? key = none := by
  simp [find?, erase]

theorem find?_erase_of_ne (ix : Index κ β) {key other : κ} (h : other ≠ key) :
    (ix.erase key).find? other = ix.find? other := by
  simp only [find?, erase, List.find?_filter]
  congr 2
  funext e
  by_cases he : e.1 = other <;> simp [he, h]

theorem find?_insert_self (ix : Index κ β) (key : κ) (value : β) :
    (ix.insert key value).find? key = some value := by
  have h := find?_erase_self ix key
  simp only [find?, Option.map_eq_none_iff] at h
  simp [find?, insert, List.find?_append, h]

theorem find?_insert_of_ne (ix : Index κ β) {key other : κ} (value : β) (h : other ≠ key) :
    (ix.insert key value).find? other = ix.find? other := by
  rw [← find?_erase_of_ne ix h]
  simp [find?, insert, List.find?_append, Ne.symm h]

/-- The list under a key, empty when there is none. -/
def list (ix : Index κ (List β)) (key : κ) : List β := (ix.find? key).getD []

/-- Adds an item to the end of the list under a key. -/
def add (ix : Index κ (List β)) (key : κ) (item : β) : Index κ (List β) :=
  ix.insert key (ix.list key ++ [item])

/-- Takes an item out of the list under a key, and the key away with the last item. -/
def remove [DecidableEq β] (ix : Index κ (List β)) (key : κ) (item : β) : Index κ (List β) :=
  match ix.find? key with
  | none => ix
  | some items =>
    match items.filter (· ≠ item) with
    | [] => ix.erase key
    | rest => ix.insert key rest

end Index

end SymbolAtlas
