import Splice.Text.Quoted

/-!
# `Splice.Text.Detail` — detailed descriptions

The shapes in which structured things are described for a developer: records with named fields,
constructors with arguments, lists, and tables.

## Contents
- `record`, `applied`, `listed`, `tabled`.
-/

namespace Splice.Text

/-- `Name { field: description, … }` -/
def record (name : String) (fields : List (String × String)) : String :=
  name ++ " \x7b " ++ ", ".intercalate (fields.map fun (field, text) => field ++ ": " ++ text)
    ++ " \x7d"

/-- `Name(description)` -/
def applied (name argument : String) : String := name ++ "(" ++ argument ++ ")"

/-- `[description, …]` -/
def listed (items : List String) : String := "[" ++ ", ".intercalate items ++ "]"

/-- `{"key": description, …}` -/
def tabled (entries : List (String × String)) : String :=
  "\x7b" ++ ", ".intercalate (entries.map fun (key, text) => quote key ++ ": " ++ text) ++ "\x7d"

end Splice.Text
