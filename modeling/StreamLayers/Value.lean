import StreamLayers.Word

/-!
Structured data, as settings files and reports hold it.
-/

namespace StreamLayers

inductive Value where
  | null
  | bool (b : Bool)
  | int (n : Int)
  | float (x : Float)
  | text (s : String)
  /-- Something that was read but stands for no value: a string whose escapes are no characters, or
  a table with such a key. -/
  | garbled
  | list (items : List Value)
  /-- Entries in their order. -/
  | table (entries : List (String × Value))
  deriving Repr, Inhabited

namespace Value

def nat (n : Nat) : Value := .int n

def ofOption (f : α → Value) : Option α → Value
  | some a => f a
  | none => .null

/-- Sets an entry, which keeps its place if it is there. -/
def setEntry {α : Type} (key : String) (a : α) : List (String × α) → List (String × α)
  | [] => [(key, a)]
  | (k, b) :: rest => if k = key then (k, a) :: rest else (k, b) :: setEntry key a rest

def get? (key : String) : Value → Option Value
  | .table entries => entries.lookup key
  | _ => none

end Value

end StreamLayers
