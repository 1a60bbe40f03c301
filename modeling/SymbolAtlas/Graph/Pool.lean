/-!
# Numbered pools

A pool holds items under numbers that stay theirs until they are taken out. A new item gets the
number that was freed last, or the next one when none is free. Items are listed newest first, and
can also be listed by number.
-/

namespace SymbolAtlas

/-- Items under numbers. -/
structure Pool (α : Type) where
  /-- The items with their numbers, the newest first. -/
  items : List (Nat × α) := []
  /-- Numbers given up, the last one first. -/
  free : List Nat := []
  /-- The number of numbers ever given out. -/
  bound : Nat := 0
  deriving Repr

namespace Pool

variable {α : Type}

/-- The number that the next item gets. -/
def next (p : Pool α) : Nat := p.free.head?.getD p.bound

/-- Adds an item under the number `p.next`. -/
def add (p : Pool α) (item : α) : Pool α :=
  { items := (p.next, item) :: p.items
    free := p.free.tail
    bound := if p.free.isEmpty then p.bound + 1 else p.bound }

/-- The item under a number. -/
def get? (p : Pool α) (number : Nat) : Option α :=
  (p.items.find? fun e => e.1 = number).map Prod.snd

/-- Takes out the item under a number and frees the number. -/
def erase (p : Pool α) (number : Nat) : Pool α :=
  if (p.get? number).isSome then
    { p with items := p.items.filter fun e => e.1 ≠ number, free := number :: p.free }
  else p

/-- Changes the item under a number. -/
def modify (p : Pool α) (number : Nat) (f : α → α) : Pool α :=
  { p with items := p.items.map fun e => if e.1 = number then (e.1, f e.2) else e }

/-- The items with their numbers, in the order of the numbers. -/
def numbered (p : Pool α) : List (Nat × α) :=
  (List.range p.bound).filterMap fun number => (p.get? number).map fun item => (number, item)

theorem get?_add_next (p : Pool α) (item : α) : (p.add item).get? p.next = some item := by
  simp [get?, add]

theorem get?_add_of_ne (p : Pool α) (item : α) {number : Nat} (h : number ≠ p.next) :
    (p.add item).get? number = p.get? number := by
  simp [get?, add, Ne.symm h]

theorem get?_erase_self (p : Pool α) (number : Nat) : (p.erase number).get? number = none := by
  unfold erase
  split
  case isTrue => simp [get?]
  case isFalse h => exact Option.not_isSome_iff_eq_none.mp h

theorem get?_erase_of_ne (p : Pool α) {number other : Nat} (h : other ≠ number) :
    (p.erase number).get? other = p.get? other := by
  unfold erase
  split
  · simp only [get?, List.find?_filter]
    congr 2
    funext e
    by_cases he : e.1 = other <;> simp [he, h]
  · rfl

end Pool

end SymbolAtlas
