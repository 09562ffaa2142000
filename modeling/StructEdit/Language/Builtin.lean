import StructEdit.Language.Definition

namespace StructEdit.Builtin

def typeScriptTables : Tables where
  scopes := ["formal_parameters", "interface_body", "object", "object_type", "statement_block",
    "class_body", "enum_body", "array", "arguments"]
  splittable := ["string", "template_string", "array", "object", "arguments"]
  units := ["property_signature", "object_type", "pair", "object", "array", "call_expression",
    "member_expression", "binary_expression", "arrow_function", "parenthesized_expression",
    "ternary_expression", "await_expression", "new_expression", "string", "template_string",
    "identifier", "number"]
  delimiters := [("arguments", ","), ("array", ","), ("formal_parameters", ","),
    ("object", ","),
    ("type_arguments", ","), ("tuple_type", ","), ("object_type", ";"), ("interface_body", ";")]

def typeKinds : List String :=
  ["interface_body", "object_type", "enum_body", "property_signature"]

def javaScriptTables : Tables where
  scopes := typeScriptTables.scopes.filter (!typeKinds.contains ·)
  splittable := typeScriptTables.splittable.filter (!typeKinds.contains ·)
  units := typeScriptTables.units.filter (!typeKinds.contains ·)
  delimiters := [("arguments", ","), ("array", ","), ("formal_parameters", ","),
    ("object", ",")]

def rustTables : Tables where
  scopes := ["block", "parameters", "arguments", "field_declaration_list",
    "field_initializer_list", "declaration_list", "array_expression", "tuple_expression",
    "use_list"]
  splittable := ["string_literal", "array_expression", "arguments", "tuple_expression"]
  units := ["call_expression", "field_expression", "binary_expression", "reference_expression",
    "macro_invocation", "array_expression", "tuple_expression", "struct_expression",
    "identifier",
    "integer_literal", "string_literal", "index_expression", "try_expression"]
  delimiters := [("arguments", ","), ("array_expression", ","), ("tuple_expression", ","),
    ("parameters", ","), ("field_initializer_list", ","), ("use_list", ",")]

def definitions : List Definition :=
  [⟨"typescript", "TypeScript", .typeScript, typeScriptTables⟩,
    ⟨"tsx", "TSX", .tsx, typeScriptTables⟩,
    ⟨"javascript", "JavaScript", .javaScript, javaScriptTables⟩,
    ⟨"rust", "Rust", .rust, rustTables⟩]

def find? (name : String) : Option Definition :=
  definitions.find? (·.name == nameKey name)

end StructEdit.Builtin
