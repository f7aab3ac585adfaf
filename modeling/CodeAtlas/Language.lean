import CodeAtlas.Path

/-!
# Languages

The languages whose sources can be indexed, with what the index has to know about each of them:
the extensions of its files, how its imports name files, the words it uses for an object and its
constructor, and whether its definitions are visible without being exported.
-/

namespace CodeAtlas

/-- A language of source files. -/
inductive Language where
  | python
  | javascript
  | typescript
  | tsx
  | java
  | c
  | php
deriving DecidableEq, Repr, Inhabited

namespace Language

/-- All languages, in the order in which they are tried. -/
def all : List Language := [python, javascript, typescript, tsx, java, c, php]

/-- The name of the language. -/
def name : Language → String
  | python => "python"
  | javascript => "javascript"
  | typescript => "typescript"
  | tsx => "tsx"
  | java => "java"
  | c => "c"
  | php => "php"

/-- The extensions of its files. -/
def extensions : Language → List String
  | python => ["py"]
  | javascript => ["js", "jsx", "mjs", "cjs"]
  | typescript => ["ts", "mts", "cts"]
  | tsx => ["tsx"]
  | java => ["java"]
  | c => ["c", "h"]
  | php => ["php"]

/-- The extensions tried, in order, for an import that gives none. -/
def importExtensions : Language → List String
  | javascript => ["js", "jsx", "mjs", "cjs", "ts", "tsx"]
  | typescript | tsx => ["ts", "tsx", "js", "jsx", "mts", "cts"]
  | c => ["h", "c"]
  | l => l.extensions

/-- The name of the member that initialises objects; a Java constructor is named after its
class instead. -/
def constructorName? : Language → Option String
  | python => some "__init__"
  | javascript | typescript | tsx => some "constructor"
  | php => some "__construct"
  | java | c => none

/-- The word for the object whose method is running. -/
def selfWord? : Language → Option String
  | python => some "self"
  | javascript | typescript | tsx | java => some "this"
  | php => some "$this"
  | c => none

/-- The end of the path of the file that stands for its folder. -/
def indexEnding? : Language → Option String
  | python => some "/__init__"
  | javascript | typescript | tsx => some "/index"
  | java | c | php => none

/-- The language belongs to the JavaScript family. -/
def isScript : Language → Bool
  | javascript | typescript | tsx => true
  | python | java | c | php => false

/-- Definitions are visible to other files without being exported. -/
def exportsByDefault (l : Language) : Bool := !l.isScript

/-- Blocks are marked by indentation. -/
def usesIndentation : Language → Bool
  | python => true
  | javascript | typescript | tsx | java | c | php => false

/-- An import may name a file by the end of its path. -/
def importsByEnding : Language → Bool
  | python | java | php => true
  | javascript | typescript | tsx | c => false

/-- An import brings every top-level name of a file into scope. -/
def importsWholeFiles : Language → Bool
  | c | php => true
  | python | javascript | typescript | tsx | java => false

/-- The language with an extension. -/
def ofExtension? (extension : String) : Option Language :=
  all.find? fun l => l.extensions.contains extension

/-- The language with a name. -/
def ofName? (n : String) : Option Language :=
  all.find? fun l => l.name == n

/-- The language of a file, by the extension in its path. -/
def ofPath? (path : String) : Option Language :=
  ofExtension? ((Path.extension? path).getD "")

end Language

/-- The endings of files that are never indexed. -/
def generatedEndings : List String :=
  [".min.js", ".min.css", ".min.js.map", ".min.css.map", ".d.ts"]

/-- The file is one of those that are never indexed. -/
def isGenerated (path : String) : Bool :=
  generatedEndings.any (Text.endsWith path)

end CodeAtlas
