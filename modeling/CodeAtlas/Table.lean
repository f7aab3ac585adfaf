/-!
# Tables

A table maps texts to values and keeps its entries in the order of their keys, each key once.
-/

namespace CodeAtlas

/-- A list of keys with values, in the order of the keys. -/
structure Table (β : Type) where
  entries : List (String × β)
deriving Repr, Inhabited, DecidableEq

namespace Table

variable {β γ : Type}

/-- The table without entries. -/
def empty : Table β := ⟨[]⟩

/-- The value of a key in a list of entries. -/
def findIn (key : String) : List (String × β) → Option β
  | [] => none
  | (k, v) :: rest => if k = key then some v else findIn key rest

/-- The value of a key. -/
def find? (t : Table β) (key : String) : Option β := findIn key t.entries

/-- The key has a value. -/
def contains (t : Table β) (key : String) : Bool := (t.find? key).isSome

/-- A list of entries in which a key has a new value. -/
def insertIn (key : String) (value : β) : List (String × β) → List (String × β)
  | [] => [(key, value)]
  | (k, v) :: rest =>
    if k = key then (key, value) :: rest
    else if key < k then (key, value) :: (k, v) :: rest
    else (k, v) :: insertIn key value rest

/-- Gives a key a value in place of the one it had. -/
def insert (t : Table β) (key : String) (value : β) : Table β := ⟨insertIn key value t.entries⟩

/-- Gives a key a value unless it has one. -/
def insertNew (t : Table β) (key : String) (value : β) : Table β :=
  if t.contains key then t else t.insert key value

/-- Changes the value of a key that has one. -/
def modify (t : Table β) (key : String) (f : β → β) : Table β :=
  match t.find? key with
  | none => t
  | some v => t.insert key (f v)

/-- The keys in order. -/
def keys (t : Table β) : List String := t.entries.map Prod.fst

/-- The number of entries. -/
def size (t : Table β) : Nat := t.entries.length

/-- The table has no entries. -/
def isEmpty (t : Table β) : Bool := t.entries.isEmpty

/-- The table of a list of entries; of two values for a key the later one counts. -/
def ofList (entries : List (String × β)) : Table β :=
  entries.foldl (fun t e => t.insert e.1 e.2) empty

end Table
end CodeAtlas
