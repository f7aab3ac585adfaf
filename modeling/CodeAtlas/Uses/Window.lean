import CodeAtlas.Capture
import CodeAtlas.Text.Blank
import CodeAtlas.Text.Split
import CodeAtlas.Text.Word

/-!
# Assignment windows

An assignment gives a variable a meaning from its row on, up to the row of the next assignment to
the same variable.  Within that window the variable is replaced by what was assigned, as far as
that can be reduced to a plain name; otherwise the window only ends the ones before it.
-/

namespace CodeAtlas
namespace Uses

/-! ## Right-hand sides -/

/-- The character never stands in a plain name. -/
def isRefused (c : Char) : Bool :=
  c == '"' || c == '\'' || c.toNat == 0x60 || c == '[' || c == ']' || c == '(' || c == ')' ||
    c == '{' || c == '}'

/-- The text outside of parentheses, unless one is left open. -/
def outside? : Nat → List Char → Option (List Char)
  | 0, [] => some []
  | _ + 1, [] => none
  | depth, '(' :: rest => outside? (depth + 1) rest
  | depth + 1, ')' :: rest => outside? depth rest
  | depth + 1, _ :: rest => outside? (depth + 1) rest
  | 0, c :: rest => (outside? 0 rest).map (c :: ·)

/-- The text without one pair of parentheses around it. -/
def withoutOuter (cs : List Char) : List Char :=
  match cs with
  | '(' :: rest => if rest.getLast? == some ')' then Text.trimChars rest.dropLast else cs
  | _ => cs

/-- The plain name that a right-hand side comes down to: `(Foo(a, b))` gives `Foo`. -/
def plainName? (text : String) : Option String := do
  let kept ← outside? 0 (withoutOuter (Text.trimChars text.toList))
  let name := Text.joinChars [' '] (Text.blankSeparatedChars kept)
  if name.isEmpty || name.any isRefused then none else some (String.ofList name)

/-! ## Windows -/

/-- An assignment to a variable. -/
structure Assignment where
  left : String
  right : Option String
  row : Nat
  offset : Nat
deriving DecidableEq, Repr, Inhabited

/-- The rows on which an assignment counts; a window without a stop reaches to the end. -/
structure Window where
  left : String
  right : Option String
  start : Nat
  stop : Option Nat
deriving DecidableEq, Repr, Inhabited

namespace Window

/-- The row lies in the window. -/
def covers (w : Window) (row : Nat) : Bool :=
  w.start ≤ row && w.stop.all (row < ·)

/-- The window ends where another one begins, unless it ends before. -/
def endAt (w : Window) (row : Nat) : Window :=
  { w with stop := some (match w.stop with
      | none => row
      | some stop => min stop row) }

/-- Adds the window of an assignment behind those before it. -/
def add (done : List Window) (a : Assignment) : List Window :=
  done.map (fun w => if w.left = a.left then w.endAt a.row else w) ++
    [⟨a.left, a.right, a.row, none⟩]

/-- The windows of assignments in source order. -/
def ofAssignments (found : List Assignment) : List Window :=
  (found.mergeSort fun a b => a.offset ≤ b.offset).foldl add []

end Window

/-- The assignment that a match describes. -/
def assignmentOf? (captures : List Capture) : Option Assignment := do
  let left ← captures.find? (·.label == "left")
  let right ← captures.find? (·.label == "right")
  let anchor := (captures.find? (·.label == "assignment")).getD left
  let name := (plainName? right.text).filter (· != left.text)
  some ⟨left.text, name, anchor.span.start.row, anchor.span.startByte⟩

/-- The windows of the assignments in a text. -/
def windows (language : Language) (text : String) : List Window :=
  let found := Capture.all (Syntax.parse language text) .assignments
  Window.ofAssignments (found.filterMap assignmentOf?)

/-! ## Replacing variables -/

/-- The rows with the variable of a window replaced where the window covers them. -/
def applyWindow (rows : List String) (w : Window) : List String :=
  match w.right with
  | none => rows
  | some right =>
    rows.mapIdx fun i row => if w.covers i then Text.replaceFreeWord w.left right row else row

/-- The text with all variables replaced, the latest windows first. -/
def applyWindows (text : String) (ws : List Window) : String :=
  let ordered := (ws.filter (·.right.isSome)).mergeSort fun a b => b.start ≤ a.start
  match ordered with
  | [] => text
  | _ => Text.join "\n" (ordered.foldl applyWindow (Text.split '\n' text))

end Uses
end CodeAtlas
