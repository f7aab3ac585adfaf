import CodeAtlas.Catalogue.Python
import CodeAtlas.Catalogue.Script
import CodeAtlas.Catalogue.TypedScript
import CodeAtlas.Catalogue.Java
import CodeAtlas.Catalogue.C
import CodeAtlas.Catalogue.Php
import CodeAtlas.Language
import CodeAtlas.Pattern.Reader

/-!
# The catalogue of patterns

For every language and every purpose the catalogue lists groups of patterns.  A group that cannot
be read is left out, the others keep working.  One more pattern depends on a name: it finds the
statements at the top of a file that call something on a variable of that name.
-/

namespace CodeAtlas
namespace Catalogue

open Pattern (Query)

/-- What a group of patterns looks for. -/
inductive Purpose where
  | imports
  | parts
  | definitions
  | exports
  | globals
  | assignments
  | uses
deriving DecidableEq, Repr, Inhabited

namespace Purpose

/-- All purposes. -/
def all : List Purpose := [imports, parts, definitions, exports, globals, assignments, uses]

/-- The name under which the groups of a purpose are asked for. -/
def name : Purpose → String
  | imports => "import_statements"
  | parts => "definition_template"
  | definitions => "constructor_definitions"
  | exports => "export_clauses"
  | globals => "assignments"
  | assignments => "variable_assignments"
  | uses => "calls"

/-- The purpose with a name. -/
def ofName? (n : String) : Option Purpose :=
  all.find? fun p => p.name == n

end Purpose

/-- The groups of patterns for Python. -/
def python : Purpose → List String
  | .imports => Python.imports
  | .parts => Python.parts
  | .definitions => Python.definitions
  | .exports => []
  | .globals => Python.globals
  | .assignments => Python.assignments
  | .uses => Python.uses

/-- The groups of patterns for JavaScript. -/
def script : Purpose → List String
  | .imports => Script.imports
  | .parts => Script.parts
  | .definitions => Script.definitions
  | .exports => Script.exports
  | .globals => Script.globals
  | .assignments => Script.assignments
  | .uses => Script.uses

/-- The groups of patterns that TypeScript adds. -/
def typedScript : Purpose → List String
  | .parts => TypedScript.parts
  | .definitions => TypedScript.definitions
  | .assignments => TypedScript.assignments
  | .uses => TypedScript.uses
  | .imports | .exports | .globals => []

/-- The groups of patterns for Java. -/
def java : Purpose → List String
  | .imports => Java.imports
  | .parts => Java.parts
  | .definitions => Java.definitions
  | .assignments => Java.assignments
  | .uses => Java.uses
  | .exports | .globals => []

/-- The groups of patterns for C. -/
def c : Purpose → List String
  | .imports => C.imports
  | .parts => C.parts
  | .definitions => C.definitions
  | .exports => []
  | .globals => C.globals
  | .assignments => C.assignments
  | .uses => C.uses

/-- The groups of patterns for PHP. -/
def php : Purpose → List String
  | .imports => Php.imports
  | .parts => Php.parts
  | .definitions => Php.definitions
  | .exports => []
  | .globals => Php.globals
  | .assignments => Php.assignments
  | .uses => Php.uses

/-- The groups of patterns of a language for a purpose. -/
def groups (language : Language) (purpose : Purpose) : List String :=
  match language with
  | .python => python purpose
  | .javascript => script purpose
  | .typescript | .tsx => script purpose ++ typedScript purpose
  | .java => java purpose
  | .c => c purpose
  | .php => php purpose

/-- The queries of a language for a purpose, group by group. -/
def queries (language : Language) (purpose : Purpose) : List (List Query) :=
  (groups language purpose).filterMap Pattern.readGroup?

/-- A name as it is written inside a quoted expression of a pattern. -/
def quotedName (name : String) : String :=
  String.ofList ((Text.Regex.escape name).toList.flatMap fun ch =>
    if ch = '"' then ['\\', '"'] else [ch])

/-- The pattern of calls on a variable at the top of a file; empty when there is none. -/
def chainedCalls (language : Language) (name : String) : String :=
  let n := quotedName name
  match language with
  | .python =>
    "\n(module\n  (expression_statement\n    (call\n      function: (_) @identifier.name\n" ++
      "      (#match? @identifier.name \"^" ++ n ++ "(\\\\.|$)\")) @code))\n"
  | .javascript | .typescript | .tsx =>
    "\n(program\n  (expression_statement\n    (call_expression\n" ++
      "      function: (_) @identifier.name\n" ++
      "      (#match? @identifier.name \"^" ++ n ++ "(\\\\.|$)\")) @code))\n"
  | .java => ""
  | .c =>
    "\n(translation_unit\n  (expression_statement\n    (call_expression\n" ++
      "      function: (field_expression\n        argument: (identifier) @identifier.name)\n" ++
      "      (#eq? @identifier.name \"" ++ n ++ "\")) @code))\n"
  | .php =>
    "\n(program\n  (expression_statement\n    (member_call_expression\n" ++
      "      object: (variable_name (name) @identifier.name)\n" ++
      "      (#eq? @identifier.name \"" ++ n ++ "\"))) @code)\n"

end Catalogue
end CodeAtlas
