/-!
# Patterns of C

Functions, structures, unions and enumerations with a body are definitions, and declarations
at the top of a file define variables.
-/

namespace CodeAtlas
namespace Catalogue
namespace C

/-- Import statements. -/
def imports : List String := [
r#"
(preproc_include
  path: (system_lib_string) @module) @import_statement
"#,
r#"
(preproc_include
  path: (string_literal (string_content) @module)) @import_statement
"#]

/-- The name, the body and the documentation of a definition. -/
def parts : List String := [
r#"
(function_definition
  declarator: (function_declarator
    declarator: (identifier) @name)
  body: (_) @body)

(function_definition
  declarator: (pointer_declarator
    declarator: (function_declarator
      declarator: (identifier) @name))
  body: (_) @body)
"#,
r#"
(struct_specifier
  name: (_) @name
  body: (_) @body)

(union_specifier
  name: (_) @name
  body: (_) @body)

(enum_specifier
  name: (_) @name
  body: (_) @body)
"#,
r#"
(type_definition
  type: (struct_specifier
    body: (_) @body)
  declarator: (type_identifier) @name)
"#,
r#"
(declaration
  declarator: (init_declarator
    declarator: (identifier) @name))

(declaration
  declarator: (init_declarator
    declarator: (pointer_declarator
      declarator: (identifier) @name)))

(declaration
  declarator: (identifier) @name)
"#]

/-- Definitions, labelled by what they define. -/
def definitions : List String := [
r#"
(function_definition) @function
"#,
r#"
(struct_specifier body: (_)) @struct
(union_specifier body: (_)) @union
(enum_specifier body: (_)) @enum
"#,
r#"
(type_definition
  type: (struct_specifier body: (_))) @struct
"#]

/-- Variables defined at the top of a file. -/
def globals : List String := [
r#"
(translation_unit
  (declaration
    declarator: (init_declarator
      value: (_))) @assignment)
"#,
r#"
(translation_unit
  (declaration
    declarator: (identifier)) @assignment)
"#]

/-- Assignments anywhere, with what is assigned. -/
def assignments : List String := [
r#"
(init_declarator
  declarator: (identifier) @left
  value: (identifier) @right) @assignment

(assignment_expression
  left: (identifier) @left
  right: (identifier) @right) @assignment
"#]

/-- Names that are called or otherwise used. -/
def uses : List String := [
r#"
(call_expression function: (identifier) @identifier.name)
(call_expression function: (field_expression) @identifier.name)
"#,
r#"
(argument_list (identifier) @identifier.name)
"#,
r#"
(type_identifier) @parameter_type
"#]

end C
end Catalogue
end CodeAtlas
