import CodeAtlas.Language
import CodeAtlas.Syntax.C
import CodeAtlas.Syntax.Java
import CodeAtlas.Syntax.Mending
import CodeAtlas.Syntax.Php
import CodeAtlas.Syntax.Python
import CodeAtlas.Syntax.Script

/-!
# Parsed sources

Every text of every language has a tree: a text that does not fit its grammar is mended, and one
that cannot be mended has a tree without nodes.
-/

namespace CodeAtlas
namespace Syntax

/-- A text with its tree. -/
structure Parsed where
  language : Language
  source : Source
  tree : Tree
deriving Inhabited

/-- The kind of the root of a tree. -/
def rootKind : Language → String
  | .python => "module"
  | .c => "translation_unit"
  | .javascript | .typescript | .tsx | .java | .php => "program"

/-- The lexical rules of a language. -/
def lexisOf : Language → Lexis
  | .python => Python.lexis
  | .javascript | .typescript | .tsx => Script.lexis
  | .java => Java.lexis
  | .c => C.lexis
  | .php => Php.lexis

/-- Reads a text, changed by a repair, by the grammar of a language. -/
def attempt (language : Language) (source : Source) (repair : Repair) : Except Nat Tree :=
  match language with
  | .python => Python.parse source repair
  | .javascript => Script.parse Script.javascript source repair
  | .typescript => Script.parse Script.typescript source repair
  | .tsx => Script.parse Script.tsx source repair
  | .java => Java.parse source repair
  | .c => C.parse source repair
  | .php => Php.parse source repair

/-- The tree of a text. -/
def parse (language : Language) (text : String) : Parsed :=
  let source := Source.ofString text
  let empty := Tree.node (rootKind language) "" 0 source.size []
  ⟨language, source, (mend (lexisOf language) source (attempt language source)).getD empty⟩

namespace Parsed

/-- The root of the tree. -/
def root (p : Parsed) : Site := Site.root p.tree

/-- The text of a node. -/
def text (p : Parsed) (s : Site) : String := p.source.text s.tree.first s.tree.stop

/-- The span of a node, which does not end in front of its start. -/
def span (p : Parsed) (s : Site) : Span :=
  p.source.span s.tree.first (max s.tree.first s.tree.stop)

end Parsed
end Syntax
end CodeAtlas
