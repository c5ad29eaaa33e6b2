import Criteria.Proofs.Token

/-!
# Parentheses without a partner

Reading from left to right, every closing parenthesis is paired with the nearest opening one before
it that has no partner yet.

* `unpaired` gives the parentheses that are left without a partner, in the order in which they occur;
* `Token.parentheses` and `Pieces.parentheses` are the parentheses among tokens and among pieces of
  an expression. For tokens that pieces are classified as they are the same
  (`parentheses_of_classifyFrom`).
-/

namespace Criteria

open Outcome

/-- The two sides of a pair of parentheses. -/
inductive Side
  | opening
  | closing
  deriving DecidableEq

/-- A parenthesis at a place. -/
structure Parenthesis where
  side : Side
  index : Int
  deriving DecidableEq

namespace Parenthesis

/-- Whether a parenthesis opens a pair. -/
def isOpening (p : Parenthesis) : Bool := p.side == .opening

/-- The parentheses without a partner after one more, the latest first. -/
def pairNext (left : List Parenthesis) (p : Parenthesis) : List Parenthesis :=
  match p.side with
  | .opening => p :: left
  | .closing => if left.any isOpening then left.eraseP isOpening else p :: left

/-- The parentheses without a partner, in the order in which they occur. -/
def unpaired (parentheses : List Parenthesis) : List Parenthesis :=
  (parentheses.foldl pairNext []).reverse

variable {left : List Parenthesis} {p : Parenthesis}

theorem pairNext_sublist (left : List Parenthesis) (p : Parenthesis) :
    (pairNext left p).Sublist (p :: left) := by
  unfold pairNext
  split
  · exact List.Sublist.refl _
  · split
    · exact List.eraseP_sublist.cons p
    · exact List.Sublist.refl _

/-- A closing parenthesis removes the latest opening one that has no partner, and leaves the others.
-/
theorem pairNext_closing (h : left.any isOpening = true) (index : Int) :
    ∃ opening later earlier, left = later ++ opening :: earlier ∧ opening.isOpening = true ∧
      (∀ q ∈ later, q.isOpening = false) ∧ pairNext left ⟨.closing, index⟩ = later ++ earlier := by
  obtain ⟨q, hq, hopening⟩ := List.any_eq_true.1 h
  obtain ⟨opening, later, earlier, hlater, hside, hleft, herase⟩ := List.exists_of_eraseP hq hopening
  refine ⟨opening, later, earlier, hleft, hside, fun q hq => by simpa using hlater q hq, ?_⟩
  rw [← herase]
  exact if_pos h

theorem pairNext_closing_of_not (h : left.any isOpening = false) (index : Int) :
    pairNext left ⟨.closing, index⟩ = ⟨.closing, index⟩ :: left :=
  if_neg (by simp [h])

/-- A closing parenthesis without a partner never gets one. -/
theorem isOpening_of_foldl {parentheses : List Parenthesis}
    (h : parentheses.foldl pairNext left = []) : ∀ q ∈ left, q.isOpening = true := by
  induction parentheses generalizing left with
  | nil => simp_all
  | cons p parentheses ih =>
    intro q hq
    have hnext := ih h
    unfold pairNext at hnext
    split at hnext
    · exact hnext q (List.mem_cons_of_mem p hq)
    · split at hnext
      · by_cases hopening : q.isOpening = true
        · exact hopening
        · exact hnext q ((List.mem_eraseP_of_neg hopening).2 hq)
      · exact hnext q (List.mem_cons_of_mem p hq)

/-- If all parentheses get partners, a closing one is paired with the latest one that is open. -/
theorem exists_of_foldl_closing {parentheses : List Parenthesis} {index : Int}
    (h : (⟨.closing, index⟩ :: parentheses).foldl pairNext left = []) :
    ∃ opening earlier, left = opening :: earlier ∧ parentheses.foldl pairNext earlier = [] := by
  obtain _ | ⟨opening, earlier⟩ := left
  · have hall : ∀ p ∈ [(⟨.closing, index⟩ : Parenthesis)], p.isOpening = true := isOpening_of_foldl h
    cases hall _ List.mem_cons_self
  · have hopening := isOpening_of_foldl h opening List.mem_cons_self
    have hpair : pairNext (opening :: earlier) ⟨.closing, index⟩ = earlier := by
      simp [pairNext, hopening]
    rw [List.foldl_cons, hpair] at h
    exact ⟨opening, earlier, rfl, h⟩

/-! ### Pairing does not look at places -/

/-- A parenthesis at no particular place. -/
def unplaced (p : Parenthesis) : Parenthesis := ⟨p.side, 0⟩

theorem map_pairNext (left : List Parenthesis) (p : Parenthesis) :
    (pairNext left p).map unplaced = pairNext (left.map unplaced) p.unplaced := by
  have hopening : isOpening ∘ unplaced = isOpening := rfl
  unfold pairNext
  rw [show p.unplaced.side = p.side from rfl, List.any_map, hopening, List.eraseP_map, hopening]
  split
  · rfl
  · split <;> rfl

theorem map_foldl_pairNext (left parentheses : List Parenthesis) :
    (parentheses.foldl pairNext left).map unplaced =
      (parentheses.map unplaced).foldl pairNext (left.map unplaced) := by
  induction parentheses generalizing left with
  | nil => rfl
  | cons p parentheses ih => rw [List.foldl_cons, ih, map_pairNext, List.map_cons, List.foldl_cons]

/-- Whether all have partners depends on the sides only. -/
theorem unpaired_eq_nil_congr {parentheses others : List Parenthesis}
    (h : parentheses.map unplaced = others.map unplaced) :
    unpaired parentheses = [] ↔ unpaired others = [] := by
  have hiff : ∀ ps : List Parenthesis,
      unpaired ps = [] ↔ (ps.map unplaced).foldl pairNext [] = [] := fun ps => by
    have hmap := map_foldl_pairNext [] ps
    rw [List.map_nil] at hmap
    rw [unpaired, List.reverse_eq_nil_iff, ← hmap, List.map_eq_nil_iff]
  rw [hiff, hiff, h]

end Parenthesis

/-- The parenthesis that a token is. -/
def Token.parenthesis? (token : Token) : Option Parenthesis :=
  match token.item with
  | .opening _ => some ⟨.opening, token.index⟩
  | .closing => some ⟨.closing, token.index⟩
  | _ => none

/-- The parentheses among tokens. -/
def Token.parentheses (tokens : List Token) : List Parenthesis := tokens.filterMap Token.parenthesis?

theorem parentheses_cons (token : Token) (tokens : List Token) :
    Token.parentheses (token :: tokens) =
      token.parenthesis?.toList ++ Token.parentheses tokens := by
  rw [Token.parentheses, List.filterMap_cons]
  cases token.parenthesis? <;> rfl

theorem index_of_parenthesis? {token : Token} {p : Parenthesis} (h : token.parenthesis? = some p) :
    p.index = token.index := by
  unfold Token.parenthesis? at h
  split at h <;> cases h <;> rfl

/-- The parenthesis that a piece at a place is. -/
def Piece.parenthesis? (piece : List Char) (index : Int) : Option Parenthesis :=
  if piece = ['('] then some ⟨.opening, index⟩
  else if piece = [')'] then some ⟨.closing, index⟩
  else none

/-- The parentheses among pieces that begin at an index. -/
def Piece.parentheses (start : Nat) : List (List Char) → List Parenthesis
  | [] => []
  | piece :: rest =>
    (Piece.parenthesis? piece start).toList ++ Piece.parentheses (start + 1) rest

theorem parenthesis?_of_classify {piece : List Char} {index : Int} {token : Token}
    (h : Token.classify piece index = .ok token) :
    token.parenthesis? = Piece.parenthesis? piece index := by
  obtain ⟨item, hitem, htoken⟩ := bind_eq_ok.1 h
  clear h
  cases htoken
  have hopening : String.ofList piece = "(" ↔ piece = ['('] := String.ofList_inj
  have hclosing : String.ofList piece = ")" ↔ piece = [')'] := String.ofList_inj
  unfold Token.Item.ofPiece at hitem
  simp only [hopening, hclosing] at hitem
  unfold Piece.parenthesis?
  by_cases hpiece : piece = ['(']
  · rw [if_pos hpiece] at hitem ⊢
    cases hitem
    rfl
  rw [if_neg hpiece] at hitem ⊢
  by_cases hpiece : piece = [')']
  · rw [if_pos hpiece] at hitem ⊢
    cases hitem
    rfl
  rw [if_neg hpiece] at hitem ⊢
  -- whatever else a piece is, it is no parenthesis
  split at hitem
  · cases hitem
    rfl
  · split at hitem <;> cases hitem <;> rfl

/-- Classifying pieces keeps the parentheses where they are. -/
theorem parentheses_of_classifyFrom {start : Nat} {pieces : List (List Char)} {tokens : List Token}
    (h : Token.classifyFrom start pieces = .ok tokens) :
    Token.parentheses tokens = Piece.parentheses start pieces := by
  induction pieces generalizing start tokens with
  | nil =>
    cases h
    rfl
  | cons piece pieces ih =>
    obtain ⟨token, htoken, hbind⟩ := bind_eq_ok.1 h
    obtain ⟨rest, hrest, hcons⟩ := bind_eq_ok.1 hbind
    cases hcons
    rw [Piece.parentheses, ← parenthesis?_of_classify htoken, ← ih hrest, parentheses_cons]

end Criteria
