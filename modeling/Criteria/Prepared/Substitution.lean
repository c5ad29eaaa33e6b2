import Criteria.Text.Blank

/-!
# Substitution of prepared conditions

A prepared condition is a name with a text. The text is put in the place of the name wherever the
name stands between boundaries: before it the beginning, a blank, `(` or `!`, after it the end, a
blank or `)`.

* `substitute` replaces one name from left to right; what it puts in is not looked at again;
* `populate` replaces one name after the other, so that later names are found in the texts of
  earlier ones.

Names, texts and what they are put in are lists of characters, without lone surrogates, as expressions
are.
-/

namespace Criteria

/-- Names with their texts, in the order in which they are replaced. -/
abbrev Conditions := List (List Char × List Char)

namespace Conditions

/-- Whether a name may follow a character. -/
def opens (c : Char) : Bool := isBlank c || c == '(' || c == '!'

/-- Whether a name may end before some characters. -/
def closes : List Char → Bool
  | [] => true
  | c :: _ => isBlank c || c == ')'

/-- Whether a name stands at the beginning of some characters, up to a boundary. -/
def standsAt (name : List Char) (text : List Char) : Bool :=
  name.isPrefixOf text && closes (text.drop name.length)

/-- Replace a name in what follows the beginning of a text, after passing over `passed` characters
of the name. -/
def substituteAfter (name replacement : List Char) : List Char → Nat → List Char
  | [], _ => []
  | _ :: rest, passed + 1 => substituteAfter name replacement rest passed
  | c :: rest, 0 =>
    if opens c && standsAt name rest then
      c :: (replacement ++ substituteAfter name replacement rest name.length)
    else c :: substituteAfter name replacement rest 0

/-- Replace a name in a text. -/
def substitute (name replacement text : List Char) : List Char :=
  if standsAt name text then replacement ++ substituteAfter name replacement text name.length
  else substituteAfter name replacement text 0

/-- Replace names in a text, one after the other. -/
def populate (conditions : Conditions) (text : List Char) : List Char :=
  conditions.foldl (fun text condition => substitute condition.1 condition.2 text) text

end Conditions

end Criteria
