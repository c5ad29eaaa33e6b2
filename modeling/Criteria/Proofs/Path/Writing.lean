import Criteria.Proofs.Path.Composition

/-!
# Ways to write a path

The same segments may be written behind points, between brackets, and between brackets and quotes,
each segment in its own way. Cutting a path gives its segments back, so the way in which they are
written makes no difference to where the path leads, unless a name is equal to one of the texts.

* `Mark`: the ways to write a segment, `write`: a path with a mark for each segment;
* `segments_append_write`: one more segment, `segments_append_flatMap_write`: all that follow;
* `segments_write`: what is written is cut into what it was written from;
* `resolve_write`: two ways to write the same segments lead to the same place.
-/

namespace Criteria

namespace Path

/-- The ways to write a segment behind others. -/
inductive Mark
  | point
  | bracket
  | quote
  | doubleQuote
  deriving DecidableEq

namespace Mark

/-- What stands before a segment. -/
def opening : Mark → List Char
  | .point => ['.']
  | .bracket => ['[']
  | .quote => ['[', '\x27']
  | .doubleQuote => ['[', '"']

/-- What stands behind a segment. -/
def closing : Mark → List Char
  | .point => []
  | .bracket => [']']
  | .quote => ['\x27', ']']
  | .doubleQuote => ['"', ']']

/-- A segment behind others. -/
def write (mark : Mark) (word : List Char) : List Char := mark.opening ++ word ++ mark.closing

/-- A segment at the beginning of a path, where no point stands before it. -/
def writeFirst : Mark → List Char → List Char
  | .point, word => word
  | mark, word => mark.write word

end Mark

/-- A path with a mark for each of its segments. -/
def write : List (Mark × List Char) → List Char
  | [] => []
  | (mark, word) :: parts => mark.writeFirst word ++ parts.flatMap fun part => part.1.write part.2

/-- What can be a segment: characters without separators, at least one. -/
def IsSegment (word : List Char) : Prop := word ≠ [] ∧ ∀ c ∈ word, isSeparator c = false

/-! ### Cutting what is written -/

variable {front word : List Char} {parts : List (Mark × List Char)}

/-- Separators behind a path belong to no segment. -/
theorem segments_append_separators {separators : List Char}
    (h : ∀ c ∈ separators, isSeparator c = true) : segments (front ++ separators) = segments front := by
  induction separators generalizing front with
  | nil => rw [List.append_nil]
  | cons c separators ih =>
    obtain ⟨hc, hseparators⟩ := List.forall_mem_cons.1 h
    have hrest : segments separators = [] := @ih [] hseparators
    rw [segments_append hc, hrest, List.append_nil]

/-- A path goes on behind separators. -/
theorem segments_append_of_separators {separators back : List Char} (hne : separators ≠ [])
    (h : ∀ c ∈ separators, isSeparator c = true) :
    segments (front ++ (separators ++ back)) = segments front ++ segments back := by
  obtain ⟨init, last, rfl⟩ := (List.eq_nil_or_concat separators).resolve_left hne
  rw [List.concat_eq_append] at h ⊢
  have hinit : ∀ c ∈ init, isSeparator c = true := fun c hc => h c (List.mem_append_left _ hc)
  have hlast : isSeparator last = true := h last (List.mem_append_right _ (List.mem_singleton_self _))
  rw [List.append_assoc, List.singleton_append, ← List.append_assoc, segments_append hlast,
    segments_append_separators hinit]

theorem Mark.isSeparator_of_mem_opening (mark : Mark) : ∀ c ∈ mark.opening, isSeparator c = true := by
  cases mark <;> exact List.all_eq_true.1 rfl

theorem Mark.isSeparator_of_mem_closing (mark : Mark) : ∀ c ∈ mark.closing, isSeparator c = true := by
  cases mark <;> exact List.all_eq_true.1 rfl

theorem Mark.opening_ne_nil (mark : Mark) : mark.opening ≠ [] := by
  cases mark <;> exact List.cons_ne_nil _ _

/-- One more segment is cut off as it was before it was written. -/
theorem segments_append_write (mark : Mark) (h : IsSegment word) :
    segments (front ++ mark.write word) = segments front ++ [word] := by
  rw [Mark.write, List.append_assoc, segments_append_of_separators mark.opening_ne_nil
    mark.isSeparator_of_mem_opening, segments_append_separators mark.isSeparator_of_mem_closing,
    segments_of_forall h.2 h.1]

theorem segments_writeFirst (mark : Mark) (h : IsSegment word) :
    segments (mark.writeFirst word) = [word] := by
  have hbehind : segments ([] ++ mark.write word) = [word] := segments_append_write mark h
  cases mark with
  | point => exact segments_of_forall h.2 h.1
  | _ => exact hbehind

/-- All segments behind a path are cut off in their order. -/
theorem segments_append_flatMap_write (h : ∀ part ∈ parts, IsSegment part.2) :
    segments (front ++ parts.flatMap fun part => part.1.write part.2) =
      segments front ++ parts.map Prod.snd := by
  induction parts generalizing front with
  | nil => rw [List.flatMap_nil, List.map_nil, List.append_nil, List.append_nil]
  | cons part parts ih =>
    obtain ⟨hpart, hparts⟩ := List.forall_mem_cons.1 h
    rw [List.flatMap_cons, ← List.append_assoc, ih hparts, segments_append_write part.1 hpart,
      List.append_assoc, List.singleton_append, List.map_cons]

/-- Cutting a path that is written from segments gives the segments, whatever the marks are. -/
theorem segments_write (h : ∀ part ∈ parts, IsSegment part.2) :
    segments (write parts) = parts.map Prod.snd := by
  cases parts with
  | nil => rfl
  | cons part parts =>
    obtain ⟨hpart, hparts⟩ := List.forall_mem_cons.1 h
    rw [write, segments_append_flatMap_write hparts, segments_writeFirst part.1 hpart,
      List.singleton_append, List.map_cons]

end Path

namespace Value

open Criteria.Path (Mark)

/-- A path that is no name leads to where its segments lead. -/
theorem resolve_of_member?_eq_none {data : Value} {path : List Char} {maxDepth : Option Int}
    (h : data.member? (Text.ofChars path) = none) :
    data.resolve path maxDepth = data.resolveSegments (Path.segments path) maxDepth := by
  rw [resolve, h]

/-- **The way to write a path makes no difference.** A path is cut into the segments it is written
from, whether each of them stands behind a point, between brackets, or between brackets and quotes.
So two ways to write the same segments lead to the same value, to nothing in the same cases, or fail
in the same way, under every limit of the depth and in all data in which neither text is a name. -/
theorem resolve_write {parts others : List (Mark × List Char)}
    (hparts : ∀ part ∈ parts, Path.IsSegment part.2)
    (hsame : others.map Prod.snd = parts.map Prod.snd) :
    Path.segments (Path.write parts) = parts.map Prod.snd ∧
      ∀ (data : Value) (maxDepth : Option Int),
        data.member? (Text.ofChars (Path.write parts)) = none →
          data.member? (Text.ofChars (Path.write others)) = none →
            data.resolve (Path.write parts) maxDepth = data.resolve (Path.write others) maxDepth := by
  have hothers : ∀ part ∈ others, Path.IsSegment part.2 := by
    intro part hpart
    have hmem : part.2 ∈ parts.map Prod.snd := hsame ▸ List.mem_map_of_mem hpart
    obtain ⟨other, hother, hword⟩ := List.mem_map.1 hmem
    exact hword ▸ hparts other hother
  refine ⟨Path.segments_write hparts, fun data maxDepth hpart hother => ?_⟩
  calc
    data.resolve (Path.write parts) maxDepth
      = data.resolveSegments (Path.segments (Path.write parts)) maxDepth :=
        resolve_of_member?_eq_none hpart
    _ = data.resolveSegments (Path.segments (Path.write others)) maxDepth := by
        rw [Path.segments_write hparts, Path.segments_write hothers, hsame]
    _ = data.resolve (Path.write others) maxDepth := (resolve_of_member?_eq_none hother).symm

/-- The size of a text in an array, found with one way to write the path and refused with neither. -/
theorem resolve_write_length :
    let data : Value := .object 0 [(Text.ofString "a", .array 1 [.null, .ofString "xyz"])]
    let parts := [(Mark.point, ['a']), (.bracket, ['1']), (.quote, Path.lengthSegment)]
    let others := [(Mark.doubleQuote, ['a']), (.point, ['1']), (.bracket, Path.lengthSegment)]
    Path.write parts = "a[1]['length']".toList ∧ Path.write others = "[\"a\"].1[length]".toList ∧
      (∀ part ∈ parts, Path.IsSegment part.2) ∧ others.map Prod.snd = parts.map Prod.snd ∧
        data.member? (Text.ofChars (Path.write parts)) = none ∧
          data.member? (Text.ofChars (Path.write others)) = none ∧
            Path.segments (Path.write parts) = [['a'], ['1'], Path.lengthSegment] ∧
              data.resolve (Path.write others) (some 3) = .ok (.int 3) := by
  intro data parts others
  have hparts : ∀ part ∈ parts, Path.IsSegment part.2 := by
    simp [parts, Path.IsSegment, Path.lengthSegment, Path.isSeparator]
  have hsame : others.map Prod.snd = parts.map Prod.snd := rfl
  have hpart : data.member? (Text.ofChars (Path.write parts)) = none := rfl
  have hother : data.member? (Text.ofChars (Path.write others)) = none := rfl
  obtain ⟨hsegments, hresolve⟩ := resolve_write hparts hsame
  have hvalue : data.resolve (Path.write parts) (some 3) = .ok (.int 3) := rfl
  exact ⟨by decide, by decide, hparts, hsame, hpart, hother, hsegments,
    (hresolve data (some 3) hpart hother).symm.trans hvalue⟩

end Value

end Criteria
