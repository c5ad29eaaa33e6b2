import Criteria.Text.CodePoint
import Criteria.Text.Hexadecimal
import Criteria.Text.Printable

/-!
# Quoted text

The form in which a text is shown inside a message: between quotes, with escapes for the quote, the
backslash and all that does not print as itself. Single quotes are preferred; a text that holds
single quotes and no double quote is written between double quotes.
-/

namespace Criteria.Text

/-- The written form of one code point between the given quotes. -/
def quoteCodePoint (quote : Char) (p : CodePoint) : List Char :=
  let n := p.toNat
  match p with
  | .scalar c =>
    if c = quote || c = '\\' then ['\\', c]
    else if c = '\t' then ['\\', 't']
    else if c = '\n' then ['\\', 'n']
    else if c = '\r' then ['\\', 'r']
    else if isPrintable n then [c]
    else if n ≤ 0xFF then '\\' :: 'x' :: Hexadecimal.write 2 n
    else if n ≤ 0xFFFF then '\\' :: 'u' :: Hexadecimal.write 4 n
    else '\\' :: 'U' :: Hexadecimal.write 8 n
  | .surrogate _ => '\\' :: 'u' :: Hexadecimal.write 4 n

/-- The quote that surrounds a text. -/
def chooseQuote (t : Text) : Char :=
  if t.contains (.scalar '\x27') && !t.contains (.scalar '"') then '"' else '\x27'

/-- The written form of a text, with its quotes. -/
def quoted (t : Text) : String :=
  let quote := chooseQuote t
  String.ofList (quote :: t.flatMap (quoteCodePoint quote) ++ [quote])

example : quoted (ofString "it's") = "\"it's\"" := by decide +kernel

end Criteria.Text
