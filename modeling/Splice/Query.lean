import Splice.Value.Display

/-!
# `Splice.Query` — query strings

A map is written as pairs of a key and a value, divided by ampersands, in the order of the map. The
key of a value in a nested map has the keys on the way to it in brackets; the values of a list
repeat the key of the list. Nothing is escaped.

## Contents
- `Query.pairs`: the pairs of a value under a key.
- `Query.encode`: the query string of a map.
-/

namespace Splice.Query

mutual

/-- The pairs of a value whose key is `key`; null has an empty value. -/
def pairs (key : String) : Value → List String
  | .map entries => pairsUnder key entries
  | .list items => pairsEach key items
  | .null => [key ++ "="]
  | value => [key ++ "=" ++ value.display]

/-- The pairs of a map whose key is `key`. -/
def pairsUnder (key : String) : List (String × Value) → List String
  | [] => []
  | (child, value) :: entries =>
    pairs (key ++ "[" ++ child ++ "]") value ++ pairsUnder key entries

/-- The pairs of the values of a list whose key is `key`. -/
def pairsEach (key : String) : List Value → List String
  | [] => []
  | value :: values => pairs key value ++ pairsEach key values

end

/-- The query string of a map. -/
def encode (entries : Table Value) : String :=
  "&".intercalate (entries.flatMap fun (key, value) => pairs key value)

end Splice.Query
