/-!
# Words cut out of a list of characters

A word that is being read is kept in reverse, last character first, until it is complete.
-/

namespace Criteria

/-- Put a word that was read in reverse before the words that follow it, unless it is empty. -/
def closeWord (reversed : List Char) (words : List (List Char)) : List (List Char) :=
  if reversed.isEmpty then words else reversed.reverse :: words

@[simp] theorem closeWord_nil (words : List (List Char)) : closeWord [] words = words := rfl

@[simp] theorem closeWord_cons (c : Char) (reversed : List Char) (words : List (List Char)) :
    closeWord (c :: reversed) words = (c :: reversed).reverse :: words := rfl

end Criteria
