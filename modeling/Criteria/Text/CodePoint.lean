/-!
# Code points and text

A text is a finite sequence of code points. Most code points are characters; the code points
`0xD800` to `0xDFFF` are surrogates, which are no characters but can stand in a text that was
written with numeric escapes.

* `CodePoint`, its number `toNat` and the reading `ofNat?` of a number as a code point;
* `Text`, the texts `ofString` made of characters only, and `toString?` back;
* `Text.legible`, the string of any text, in which no surrogate is left;
* `Text.precedes`, the order of texts by the numbers of their code points.
-/

namespace Criteria

/-- A character, or the surrogate that stands `offset` places after the first one. -/
inductive CodePoint
  | scalar (c : Char)
  | surrogate (offset : Fin 2048)
  deriving DecidableEq

namespace CodePoint

/-- The number of the first surrogate. -/
def firstSurrogate : Nat := 0xD800

/-- The number of a code point. -/
def toNat : CodePoint → Nat
  | .scalar c => c.toNat
  | .surrogate offset => firstSurrogate + offset.val

/-- The code point with a number; there is none above `0x10FFFF`. -/
def ofNat? (n : Nat) : Option CodePoint :=
  if n.isValidChar then some (.scalar (Char.ofNat n))
  else if h : n - firstSurrogate < 2048 then some (.surrogate ⟨n - firstSurrogate, h⟩)
  else none

end CodePoint

/-- A sequence of code points. -/
abbrev Text := List CodePoint

namespace Text

/-- The text of a list of characters. -/
def ofChars (cs : List Char) : Text := cs.map .scalar

/-- The text of a string. -/
def ofString (s : String) : Text := ofChars s.toList

/-- The characters of a text that holds no surrogate. -/
def toChars? : Text → Option (List Char)
  | [] => some []
  | .scalar c :: rest => (toChars? rest).map (c :: ·)
  | .surrogate _ :: _ => none

/-- The string of a text that holds no surrogate. -/
def toString? (t : Text) : Option String := (toChars? t).map String.ofList

/-- Whether a text holds a surrogate. -/
def hasSurrogate (t : Text) : Bool := (toChars? t).isNone

/-- What is shown of a code point: itself, or in place of a surrogate one replacement character for
each of the three bytes that would encode it. -/
def legibleChars : CodePoint → List Char
  | .scalar c => [c]
  | .surrogate _ => List.replicate 3 '\uFFFD'

/-- The string that is shown of a text. -/
def legible (t : Text) : String := String.ofList (t.flatMap legibleChars)

/-- Whether one text comes strictly before another: the first difference decides, by the numbers of
the code points, and a proper beginning of a text comes before it. -/
def precedes : Text → Text → Bool
  | _, [] => false
  | [], _ :: _ => true
  | a :: s, b :: t => decide (a.toNat < b.toNat) || (a == b && precedes s t)

@[simp] theorem ofChars_nil : ofChars [] = [] := rfl

@[simp] theorem ofChars_cons (c : Char) (cs : List Char) :
    ofChars (c :: cs) = .scalar c :: ofChars cs := rfl

@[simp] theorem toChars?_ofChars (cs : List Char) : toChars? (ofChars cs) = some cs := by
  induction cs with
  | nil => rfl
  | cons c cs ih => simp [toChars?, ih]

theorem ofChars_inj {cs ds : List Char} : ofChars cs = ofChars ds ↔ cs = ds := by
  refine ⟨fun heq => ?_, congrArg ofChars⟩
  have hchars := congrArg toChars? heq
  rw [toChars?_ofChars, toChars?_ofChars] at hchars
  exact Option.some.inj hchars

/-- A text made of a string gives the string back. -/
theorem toString?_ofString (s : String) : toString? (ofString s) = some s := by
  simp [toString?, ofString]

/-- A text made of characters is shown as these characters. -/
theorem flatMap_legibleChars_ofChars (cs : List Char) : (ofChars cs).flatMap legibleChars = cs := by
  induction cs with
  | nil => rfl
  | cons c cs ih => simp [legibleChars, ih]

/-- A text made of a string is shown as this string. -/
theorem legible_ofString (s : String) : (ofString s).legible = s := by
  simp [legible, ofString, flatMap_legibleChars_ofChars]

end Text

end Criteria
