import SymbolAtlas.Json.Basic
import SymbolAtlas.Tree.Node

/-!
# The notation of syntax trees

A node is written as a list of its kind, its field, its first byte, the byte past its last and, if
there are any, its children. Marks in front of the kind say that an error node does not count as an
error (`!`), that the node was inserted (`?`) and that it is a bare token (an apostrophe), in this
order.
-/

namespace SymbolAtlas

/-- The text without a mark in front, and whether the mark was there. -/
def Label.splitMark (mark : Char) : List Char → Bool × List Char
  | c :: rest => if c == mark then (true, rest) else (false, c :: rest)
  | [] => (false, [])

/-- A label from a kind with its marks. -/
def Label.ofMarked (marked field : String) (start stop : Nat) : Label :=
  let (quiet, cs) := splitMark '!' marked.toList
  let (missing, cs) := splitMark '?' cs
  let (token, cs) := splitMark '\'' cs
  let name := String.ofList cs
  { name, field, start, stop, named := !token, missing, faulty := name == "ERROR" && !quiet }

mutual

/-- Reads a node. -/
def Node.ofJson? : Json → Option Node
  | .list [.string marked, .string field, .number start, .number stop] => do
    some (.mk (.ofMarked marked field (← start.toNat?) (← stop.toNat?)) [])
  | .list [.string marked, .string field, .number start, .number stop, .list items] => do
    some (.mk (.ofMarked marked field (← start.toNat?) (← stop.toNat?)) (← Node.listOfJson? items))
  | _ => none

/-- Reads a list of nodes. -/
def Node.listOfJson? : List Json → Option (List Node)
  | [] => some []
  | item :: rest => do some ((← Node.ofJson? item) :: (← Node.listOfJson? rest))

end

end SymbolAtlas
