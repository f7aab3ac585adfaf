/-!
# Patterns of JavaScript

Functions, methods and classes are definitions, and so is a variable that holds a function.
Export statements are found as well, to mark what they export.
-/

namespace CodeAtlas
namespace Catalogue
namespace Script

/-- Import statements. -/
def imports : List String := [
r#"
(import_statement
  source: (string (string_fragment) @module)) @import_statement
"#,
r#"
(import_statement
  (import_clause (identifier) @name)
  source: (string (string_fragment) @module)) @import_statement
"#,
r#"
(import_statement
  (import_clause
    (namespace_import (identifier) @alias))
  source: (string (string_fragment) @module)) @import_statement
"#,
r#"
(import_statement
  (import_clause
    (named_imports
      (import_specifier
        name: (_) @name
        !alias)))
  source: (string (string_fragment) @module)) @import_statement
"#,
r#"
(import_statement
  (import_clause
    (named_imports
      (import_specifier
        name: (_) @name
        alias: (_) @alias)))
  source: (string (string_fragment) @module)) @import_statement
"#,
r#"
(lexical_declaration
  (variable_declarator
    name: (identifier) @alias
    value: (call_expression
      function: (identifier) @_fn
      arguments: (arguments (string (string_fragment) @module)))
    (#eq? @_fn "require"))) @import_statement

(variable_declaration
  (variable_declarator
    name: (identifier) @alias
    value: (call_expression
      function: (identifier) @_fn
      arguments: (arguments (string (string_fragment) @module)))
    (#eq? @_fn "require"))) @import_statement
"#,
r#"
(lexical_declaration
  (variable_declarator
    name: (object_pattern
      (shorthand_property_identifier_pattern) @name)
    value: (call_expression
      function: (identifier) @_fn
      arguments: (arguments (string (string_fragment) @module)))
    (#eq? @_fn "require"))) @import_statement
"#]

/-- The name, the body and the documentation of a definition. -/
def parts : List String := [
r#"
(_
  name: (_) @name
  body: (_) @body)
"#,
r#"
(variable_declarator
  name: (_) @name
  value: (arrow_function
    body: (_) @body))

(variable_declarator
  name: (_) @name
  value: (function_expression
    body: (_) @body))
"#,
r#"
(variable_declarator
  name: (identifier) @name)
"#]

/-- Definitions, labelled by what they define. -/
def definitions : List String := [
r#"
(export_statement) @export
"#,
r#"
(function_declaration) @function
(generator_function_declaration) @function
"#,
r#"
(lexical_declaration
  (variable_declarator
    value: (arrow_function))) @function

(lexical_declaration
  (variable_declarator
    value: (function_expression))) @function
"#,
r#"
(method_definition) @method
(class_declaration) @class
"#]

/-- Names exported by a clause. -/
def exports : List String := [
r#"
(export_clause
  (export_specifier
    name: (_) @name
    !alias))
"#,
r#"
(export_clause
  (export_specifier
    name: (_) @name
    alias: (_) @alias))
"#]

/-- Variables defined at the top of a file. -/
def globals : List String := [
r#"
(program
  (lexical_declaration
    (variable_declarator
      name: (identifier)
      value: (_ !body)) @assignment))

(program
  (variable_declaration
    (variable_declarator
      name: (identifier)
      value: (_ !body)) @assignment))
"#,
r#"
(program
  (export_statement
    (lexical_declaration
      (variable_declarator
        name: (identifier)
        value: (_ !body)) @assignment)))
"#]

/-- Assignments anywhere, with what is assigned. -/
def assignments : List String := [
r#"
(assignment_expression
  left: (identifier) @left
  right: (identifier) @right) @assignment

(assignment_expression
  left: (identifier) @left
  right: (member_expression) @right) @assignment

(assignment_expression
  left: (identifier) @left
  right: (new_expression
    constructor: (_) @right)) @assignment
"#,
r#"
(variable_declarator
  name: (identifier) @left
  value: (identifier) @right) @assignment

(variable_declarator
  name: (identifier) @left
  value: (member_expression) @right) @assignment

(variable_declarator
  name: (identifier) @left
  value: (new_expression
    constructor: (_) @right)) @assignment
"#,
r#"
(call_expression
  function: (member_expression
    object: (identifier) @right
    property: (property_identifier) @_method)
  arguments: (arguments
    (arrow_function
      parameter: (identifier) @left))
  (#any-of? @_method "forEach" "map")) @assignment

(call_expression
  function: (member_expression
    object: (identifier) @right
    property: (property_identifier) @_method)
  arguments: (arguments
    (arrow_function
      parameters: (formal_parameters . (_) @left)))
  (#match? @left "^[A-Za-z_$][A-Za-z0-9_$]*$")
  (#any-of? @_method "forEach" "map")) @assignment
"#,
r#"
(call_expression
  function: (member_expression
    object: (identifier) @right
    property: (property_identifier) @_method)
  arguments: (arguments
    (arrow_function
      parameters: (formal_parameters (_) @left .)))
  (#match? @left "^[A-Za-z_$][A-Za-z0-9_$]*$")
  (#eq? @_method "reduce")) @assignment
"#]

/-- Names that are called or otherwise used. -/
def uses : List String := [
r#"
(call_expression function: (_) @identifier.name)
(new_expression constructor: (_) @identifier.name)
"#,
r#"
(assignment_expression right: (member_expression) @identifier.name)
(_ (member_expression) @identifier.name)
"#,
r#"
(arguments (identifier) @identifier.name)
(pair value: (identifier) @identifier.name)
(variable_declarator value: (identifier) @identifier.name)
"#,
r#"
(_ object: (_) @identifier.name)
"#]

end Script
end Catalogue
end CodeAtlas
