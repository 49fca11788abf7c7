/-!
# Inspection text

The text in which values are shown to a person who looks into a running program: named records
with their fields, options, lists and mappings, and quoted strings. Each function here puts one
kind of bracket around texts that are already written; the types of the library say which.
-/

namespace ReadThrough.Text

/-- One character of a quoted text. A quote and a backslash are escaped, so are the characters
with a short escape of their own; any other ASCII control character is written by its number in
hexadecimal. -/
def quotedChar (c : Char) : String :=
  if c = '"' then "\\\""
  else if c = '\\' then "\\\\"
  else if c = '\n' then "\\n"
  else if c = '\r' then "\\r"
  else if c = '\t' then "\\t"
  else if c = '\x00' then "\\0"
  else if c.toNat < 32 ∨ c.toNat = 127 then
    "\\u\x7b" ++ String.ofList (Nat.toDigits 16 c.toNat) ++ "\x7d"
  else c.toString

/-- A text in quotes. -/
def quoted (s : String) : String :=
  "\"" ++ String.join (s.toList.map quotedChar) ++ "\""

/-- A name applied to one argument. -/
def applied (name argument : String) : String := name ++ "(" ++ argument ++ ")"

/-- An optional value. -/
def optional : Option String → String
  | none => "None"
  | some text => applied "Some" text

/-- The fields of a record, each as its name and its text. -/
def fields (items : List (String × String)) : String :=
  ", ".intercalate (items.map fun item => item.1 ++ ": " ++ item.2)

/-- A record that shows all its fields. -/
def record (name : String) (items : List (String × String)) : String :=
  name ++ " \x7b " ++ fields items ++ " \x7d"

/-- A record that has further fields which it does not show. -/
def partialRecord (name : String) (items : List (String × String)) : String :=
  name ++ " \x7b " ++ fields items ++ ", .. \x7d"

/-- A list. -/
def sequence (items : List String) : String := "[" ++ ", ".intercalate items ++ "]"

/-- A mapping, in the order of its pairs. -/
def mapping (items : List (String × String)) : String := "\x7b" ++ fields items ++ "\x7d"

/-- A truth value. -/
def boolean (b : Bool) : String := if b then "true" else "false"

end ReadThrough.Text
