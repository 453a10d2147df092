import Splice.Catalogue.Arithmetic
import Splice.Catalogue.Conversion
import Splice.Catalogue.Data
import Splice.Catalogue.Lists
import Splice.Catalogue.Logic
import Splice.Catalogue.Text

/-!
# `Splice.Catalogue` — what the builtin functions do

## Contents
- `Builtin.action`: what a builtin function does with a number of arguments.
- `Catalogue.scope`: the scope that binds the builtin functions to their names.
- `Context.withBuiltins`: a chain of scopes with the builtin functions behind it.
-/

namespace Splice

/-- What a builtin function does when it is called with `found` arguments. -/
def Builtin.action (b : Builtin) (found : Nat) : Action Value :=
  match b with
  | .isEqual => Catalogue.equality b true found
  | .isNotEqual => Catalogue.equality b false found
  | .isNull => Catalogue.nullity b true found
  | .isNotNull => Catalogue.nullity b false found
  | .choose => Catalogue.choose found
  | .gt => Catalogue.comparison b (fun x y => y < x) found
  | .gte => Catalogue.comparison b (fun x y => y ≤ x) found
  | .lt => Catalogue.comparison b (fun x y => x < y) found
  | .lte => Catalogue.comparison b (fun x y => x ≤ y) found
  | .not => Catalogue.negate found
  | .or => Catalogue.either found
  | .and => Catalogue.both found
  | .sum => Catalogue.sum found
  | .multiply => Catalogue.product found
  | .diff => Catalogue.difference found
  | .divide => Catalogue.quotient found
  | .modulo => Catalogue.remainder found
  | .ceil => Catalogue.rounding b Decimal.ceil? found
  | .floor => Catalogue.rounding b Decimal.floor? found
  | .abs => Catalogue.magnitude found
  | .clamp => Catalogue.clamp found
  | .concat => Catalogue.concat found
  | .substring => Catalogue.substring found
  | .jsonGet => Catalogue.dataAt found
  | .isoFormat => Catalogue.formatInstant found
  | .contains => Catalogue.contains found
  | .elementAt => Catalogue.itemAt found
  | .firstElement => Catalogue.first found
  | .lastElement => Catalogue.last found
  | .skip => Catalogue.part b List.drop found
  | .take => Catalogue.part b List.take found
  | .reversed => Catalogue.reversed found
  | .numberFormat => Catalogue.formatNumber found
  | .toInt => Catalogue.integer found
  | .isEmpty => Catalogue.isEmpty found
  | .length => Catalogue.length found
  | .qsEncode => Catalogue.queryString found

namespace Catalogue

/-- The names of the builtin functions and their values, each function under its own name and then
under the other ones. -/
def bindings : Table Value :=
  Builtin.all.flatMap fun b =>
    (b.name :: b.aliases).map fun name => (name, .function (.builtin b))

/-- The scope of the builtin functions. -/
def scope : Scope := { name := "builtins", bindings }

end Catalogue

/-- The chain of scopes that an evaluation sees: that of the host, if there is one, and the builtin
functions behind it. -/
def Context.withBuiltins : Option Context → Context
  | some context => context.withTail (.ofScope Catalogue.scope)
  | none => .ofScope Catalogue.scope

end Splice
