/-!
# Patterns of PHP

Types, functions, methods and namespaces are definitions.  An assignment statement outside of
all of them defines a variable.
-/

namespace CodeAtlas
namespace Catalogue
namespace Php

/-- Import statements. -/
def imports : List String := [
r#"
(expression_statement
  (include_expression [(string) (encapsed_string)] @module)) @import_statement
(expression_statement
  (include_once_expression [(string) (encapsed_string)] @module)) @import_statement
(expression_statement
  (require_expression [(string) (encapsed_string)] @module)) @import_statement
(expression_statement
  (require_once_expression [(string) (encapsed_string)] @module)) @import_statement
"#,
r#"
(namespace_use_declaration
  (namespace_use_clause
    (qualified_name) @module)) @import_statement
"#]

/-- The name, the body and the documentation of a definition. -/
def parts : List String := [
r#"
(_
  name: (_) @name
  body: (_) @body)
"#,
r#"
(method_declaration
  name: (_) @name)
"#,
r#"
(assignment_expression
  left: (variable_name (name) @name))
"#,
r#"
(namespace_definition
  name: (_) @name)
"#]

/-- Definitions, labelled by what they define. -/
def definitions : List String := [
r#"
(class_declaration) @class
(interface_declaration) @interface
"#,
r#"
(trait_declaration) @class
"#,
r#"
(method_declaration) @method
(function_definition) @function
"#,
r#"
(namespace_definition) @namespace
"#]

/-- Variables defined at the top of a file. -/
def globals : List String := [
r#"
(program
  (expression_statement
    (assignment_expression
      left: (variable_name)
      right: (_))) @assignment)
"#]

/-- Assignments anywhere, with what is assigned. -/
def assignments : List String := [
r#"
(assignment_expression
  left: (variable_name) @left
  right: (object_creation_expression (name) @right)) @assignment

(assignment_expression
  left: (variable_name) @left
  right: (object_creation_expression (qualified_name) @right)) @assignment
"#,
r#"
(assignment_expression
  left: (variable_name) @left
  right: (variable_name) @right) @assignment
"#]

/-- Names that are called or otherwise used. -/
def uses : List String := [
r#"
(function_call_expression function: (_) @identifier.name)
"#,
r#"
(member_call_expression) @identifier.name
(scoped_call_expression) @identifier.name
"#,
r#"
(object_creation_expression (name) @identifier.name)
(object_creation_expression (qualified_name) @identifier.name)
"#,
r#"
(named_type) @parameter_type
"#]

end Php
end Catalogue
end CodeAtlas
