/-!
# Byte offsets in a text

Offsets count the bytes of the UTF-8 form of a text, while texts are handled as lists of
characters.  A cut is possible only between two characters; every function here says so by
returning nothing for an offset that falls inside one or beyond the end.
-/

namespace CodeAtlas
namespace Text

/-- The number of bytes the characters take. -/
def byteLength : List Char → Nat
  | [] => 0
  | c :: rest => c.utf8Size + byteLength rest

/-- The number of bytes of a text. -/
def size (s : String) : Nat :=
  byteLength s.toList

/-- Cuts the characters after exactly `n` bytes. -/
def cutAt? : Nat → List Char → Option (List Char × List Char)
  | 0, cs => some ([], cs)
  | _ + 1, [] => none
  | n + 1, c :: rest =>
    if n + 1 < c.utf8Size then none
    else (cutAt? (n + 1 - c.utf8Size) rest).map fun p => (c :: p.1, p.2)
termination_by _ cs => cs.length

/-- What stands from byte `n` on. -/
def dropBytes? (n : Nat) (cs : List Char) : Option (List Char) :=
  (cutAt? n cs).map Prod.snd

/-- What stands before byte `n`. -/
def takeBytes? (n : Nat) (cs : List Char) : Option (List Char) :=
  (cutAt? n cs).map Prod.fst

/-- The characters from byte `first` up to byte `stop`, which is not included. -/
def sliceBytes? (first stop : Nat) (cs : List Char) : Option (List Char) :=
  if stop < first then none
  else (dropBytes? first cs).bind (takeBytes? (stop - first))

/-- Whether `cs` starts with `piece`, and if so what follows. -/
def stripPrefix? : List Char → List Char → Option (List Char)
  | [], cs => some cs
  | _ :: _, [] => none
  | p :: piece, c :: cs => if p = c then stripPrefix? piece cs else none

/-- The text before and after the first place where `piece` stands. -/
def splitFirst? (piece : List Char) : List Char → Option (List Char × List Char)
  | [] => if piece.isEmpty then some ([], []) else none
  | c :: rest =>
    match stripPrefix? piece (c :: rest) with
    | some after => some ([], after)
    | none => (splitFirst? piece rest).map fun p => (c :: p.1, p.2)

end Text
end CodeAtlas
