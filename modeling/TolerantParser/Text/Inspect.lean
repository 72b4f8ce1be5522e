/-! # Inspection text

Values are shown for inspection on one line: an application is a name before its arguments in
parentheses, a record a name before its fields in braces, and a list stands in brackets. -/

set_option autoImplicit false

namespace TolerantParser.Text

def commaSep (parts : List String) : String := ", ".intercalate parts

def application (name : String) (args : List String) : String :=
  name ++ "(" ++ commaSep args ++ ")"

def record (name : String) (fields : List (String × String)) : String :=
  name ++ " \x7b " ++ commaSep (fields.map fun (field, value) => field ++ ": " ++ value) ++ " \x7d"

def bracketed (items : List String) : String := "[" ++ commaSep items ++ "]"

def optional : Option String → String
  | none => "None"
  | some s => application "Some" [s]

def boolean (b : Bool) : String := if b then "true" else "false"

end TolerantParser.Text
