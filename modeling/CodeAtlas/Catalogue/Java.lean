/-!
# Patterns of Java

Types and their methods and constructors are definitions.  There are no variables outside of
types.
-/

namespace CodeAtlas
namespace Catalogue
namespace Java

/-- Import statements. -/
def imports : List String := [
r#"
(import_declaration
  (scoped_identifier
    scope: (_) @module
    name: (_) @name)) @import_statement
"#,
r#"
(import_declaration
  (identifier) @module) @import_statement
"#,
r#"
(import_declaration
  (scoped_identifier) @module
  (asterisk) @wildcard) @import_statement
"#]

/-- The name, the body and the documentation of a definition. -/
def parts : List String := [
r#"
(_
  name: (_) @name
  body: (_) @body)
"#,
r#"
(method_declaration
  name: (_) @name)
"#]

/-- Definitions, labelled by what they define. -/
def definitions : List String := [
r#"
(class_declaration) @class
(interface_declaration) @interface
(enum_declaration) @enum
"#,
r#"
(method_declaration) @method
(constructor_declaration) @method
"#]

/-- Assignments anywhere, with what is assigned. -/
def assignments : List String := [
r#"
(variable_declarator
  name: (identifier) @left
  value: (identifier) @right) @assignment

(variable_declarator
  name: (identifier) @left
  value: (object_creation_expression
    type: (_) @right)) @assignment
"#,
r#"
(local_variable_declaration
  type: (type_identifier) @right
  declarator: (variable_declarator
    name: (identifier) @left)) @assignment

(formal_parameter
  type: (type_identifier) @right
  name: (identifier) @left) @assignment
"#]

/-- Names that are called or otherwise used. -/
def uses : List String := [
r#"
(method_invocation) @identifier.name
(field_access) @identifier.name
"#,
r#"
(object_creation_expression
  type: (_) @identifier.name)
"#,
r#"
(type_identifier) @parameter_type
"#,
r#"
(_ object: (_) @identifier.name)
"#]

end Java
end Catalogue
end CodeAtlas
