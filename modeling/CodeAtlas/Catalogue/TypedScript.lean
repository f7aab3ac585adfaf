/-!
# Patterns of TypeScript

These patterns come behind those of JavaScript: interfaces, enumerations, type aliases and
signatures are definitions too, and type names are uses.
-/

namespace CodeAtlas
namespace Catalogue
namespace TypedScript

/-- The name, the body and the documentation of a definition. -/
def parts : List String := [
r#"
(type_alias_declaration
  name: (_) @name
  value: (_) @body)
"#,
r#"
(method_signature
  name: (_) @name)

(abstract_method_signature
  name: (_) @name)
"#]

/-- Definitions, labelled by what they define. -/
def definitions : List String := [
r#"
(method_signature) @function
(abstract_method_signature) @function
(interface_declaration) @interface
"#,
r#"
(abstract_class_declaration) @class
"#,
r#"
(enum_declaration) @enum
"#,
r#"
(program
  (type_alias_declaration) @type)

(program
  (export_statement
    (type_alias_declaration) @type))
"#]

/-- Assignments anywhere, with what is assigned. -/
def assignments : List String := [
r#"
(required_parameter
  pattern: (identifier) @left
  type: (type_annotation (type_identifier) @right)) @assignment

(optional_parameter
  pattern: (identifier) @left
  type: (type_annotation (type_identifier) @right)) @assignment
"#,
r#"
(call_expression
  function: (member_expression
    object: (identifier) @right
    property: (property_identifier) @_method)
  arguments: (arguments
    (arrow_function
      parameters: (formal_parameters . (required_parameter pattern: (identifier) @left))))
  (#any-of? @_method "forEach" "map")) @assignment

(call_expression
  function: (member_expression
    object: (identifier) @right
    property: (property_identifier) @_method)
  arguments: (arguments
    (arrow_function
      parameters: (formal_parameters (required_parameter pattern: (identifier) @left) .)))
  (#eq? @_method "reduce")) @assignment
"#]

/-- Names that are called or otherwise used. -/
def uses : List String := [
r#"
(type_identifier) @parameter_type
"#]

end TypedScript
end Catalogue
end CodeAtlas
