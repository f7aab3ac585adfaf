/-!
# Patterns of Python

Functions and classes are definitions; a string that opens a body documents them.  An assignment
at the top of a module defines a variable.
-/

namespace CodeAtlas
namespace Catalogue
namespace Python

/-- Import statements. -/
def imports : List String := [
r#"
(import_statement
  name: (dotted_name) @module) @import_statement
"#,
r#"
(import_statement
  name: (aliased_import
    name: (_) @module
    alias: (_) @alias)) @import_statement
"#,
r#"
(import_from_statement
  module_name: (_) @module
  name: (dotted_name) @name) @import_statement
"#,
r#"
(import_from_statement
  module_name: (_) @module
  name: (aliased_import
    name: (_) @name
    alias: (_) @alias)) @import_statement
"#,
r#"
(import_from_statement
  module_name: (_) @module
  (wildcard_import) @wildcard) @import_statement
"#]

/-- The name, the body and the documentation of a definition. -/
def parts : List String := [
r#"
(function_definition
  name: (identifier) @name
  body: (block) @body)

(class_definition
  name: (identifier) @name
  body: (block) @body)
"#,
r#"
(function_definition
  body: (block . (expression_statement (string) @documentation)))

(class_definition
  body: (block . (expression_statement (string) @documentation)))
"#,
r#"
(assignment
  left: (identifier) @name)
"#]

/-- Definitions, labelled by what they define. -/
def definitions : List String := [
r#"
(function_definition) @function
(class_definition) @class
"#]

/-- Variables defined at the top of a file. -/
def globals : List String := [
r#"
(module
  (expression_statement
    (assignment
      left: (identifier)
      right: (_)) @assignment))
"#]

/-- Assignments anywhere, with what is assigned. -/
def assignments : List String := [
r#"
(assignment
  left: (identifier) @left
  right: (_) @right) @assignment
"#,
r#"
(typed_parameter
  (identifier) @left
  type: (_) @right) @assignment
"#,
r#"
(typed_default_parameter
  name: (identifier) @left
  type: (_) @right) @assignment
"#]

/-- Names that are called or otherwise used. -/
def uses : List String := [
r#"
(call function: (identifier) @identifier.name)
(call function: (attribute) @identifier.name)
"#,
r#"
(typed_parameter type: (_) @parameter_type)
(typed_default_parameter type: (_) @parameter_type)
(function_definition return_type: (_) @return_type)
"#,
r#"
(class_definition
  body: (block
    (expression_statement
      (assignment type: (_) @parameter_type))))
"#,
r#"
(expression_statement (assignment right: (identifier) @identifier.name))
(keyword_argument value: (identifier) @identifier.name)
(argument_list (identifier) @identifier.name)
"#,
r#"
(_ (attribute) @identifier.name)
(_ object: (_) @identifier.name)
"#]

end Python
end Catalogue
end CodeAtlas
