import CodeAtlas.Json

/-!
# Typed values in JSON

What a JSON value stands for where a value of a known type is expected.  A record is an object that
holds each of its members at most once, or an array that holds their values in order.  Members that
the record does not have are passed over; whether a member of its own may be left out is for the
record to say.
-/

namespace CodeAtlas
namespace Json

variable {α : Type}

/-- A text. -/
def text? : Json → Option String
  | string s => some s
  | _ => none

/-- A truth value. -/
def truth? : Json → Option Bool
  | bool b => some b
  | _ => none

/-- A number that a word of 64 bits can hold; neither a sign nor a fraction nor an exponent may
stand in it. -/
def word? : Json → Option Nat
  | number literal =>
    let n := Nat.ofDigitChars 10 literal 0
    if literal.all Char.isDigit && n < UInt64.size then some n else none
  | _ => none

/-- A list. -/
def list? (read : Json → Option α) : Json → Option (List α)
  | array items => items.mapM read
  | _ => none

/-- A value that may be null. -/
def nullable? (read : Json → Option α) : Json → Option (Option α)
  | null => some none
  | v => (read v).map some

/-- A value with a name, given by the name or by an object whose only member has that name and is
null. -/
def named? (ofName? : String → Option α) : Json → Option α
  | string n => ofName? n
  | object [(n, null)] => ofName? n
  | _ => none

/-- A member that may be missing. -/
def orElse (standard : α) (read : Json → Option α) : Option Json → Option α
  | none => some standard
  | some v => read v

/-- No member with one of the names stands in an object twice. -/
def unambiguous (names : List String) (members : List (String × Json)) : Bool :=
  names.all fun n => (members.filter (·.1 == n)).length ≤ 1

/-- The members of a record that has members with the given names. -/
def members? (names : List String) : Json → Option (String → Option Json)
  | object members =>
    if unambiguous names members then some fun n => members.lookup n else none
  | array items =>
    if items.length ≤ names.length then some fun n => (names.zip items).lookup n else none
  | _ => none

end Json
end CodeAtlas
