import Criteria.Yaml.Cursor

/-!
# Block scalars

A block scalar is a header and indented lines. In a literal block line ends are kept; in a folded
block a single line end between two lines that begin with no space counts as a space. The header may
say how deeply the lines are indented, and what becomes of the line ends after the last line.
-/

namespace Criteria.Yaml

/-- What becomes of the line ends after the last line: one of them, none, or all are kept. -/
inductive Chomping
  | clip
  | strip
  | keep
  deriving DecidableEq

/-- The header of a block scalar. -/
structure BlockHeader where
  chomping : Chomping
  increment : Option Nat

/-- The chomping that a character asks for. -/
def chomping? : Char → Option Chomping
  | '+' => some .keep
  | '-' => some .strip
  | _ => none

/-- The indentation that a character asks for. -/
def increment? (c : Char) : Option Nat :=
  if '1' ≤ c ∧ c ≤ '9' then some (c.toNat - '0'.toNat) else none

/-- Read the indicators of a header, which come in either order. -/
def readIndicators (cursor : Cursor) : BlockHeader × Cursor :=
  let after := cursor.next
  match cursor.peek.bind chomping?, cursor.peek.bind increment? with
  | some chomping, _ =>
    match after.peek.bind increment? with
    | some n => (⟨chomping, some n⟩, after.next)
    | none => (⟨chomping, none⟩, after)
  | none, some n =>
    match after.peek.bind chomping? with
    | some chomping => (⟨chomping, some n⟩, after.next)
    | none => (⟨.clip, some n⟩, after)
  | none, none => (⟨.clip, none⟩, cursor)

/-- Read a header and the rest of its line. -/
def readHeader? (cursor : Cursor) : Option (BlockHeader × Cursor) :=
  let (header, after) := readIndicators cursor
  if after.rest.head?.all (fun c => c == ' ' || isBreak c) then
    after.restOfLine?.map (header, ·)
  else none

/-- The line ends before the first line that is not empty, and the widest indentation. -/
def leadingLines : Nat → Nat → Cursor → List Char × Nat × Cursor
  | 0, widest, cursor => ([], widest, cursor)
  | fuel + 1, widest, cursor =>
    if cursor.peek = some ' ' then leadingLines fuel (max widest cursor.next.column) cursor.next
    else
      match cursor.takeBreak? with
      | none => ([], widest, cursor)
      | some (c, after) =>
        let (breaks, widest, last) := leadingLines fuel widest after
        (c :: breaks, widest, last)

/-- The place after spaces, at most up to an indentation. -/
def skipIndent (indent : Nat) (cursor : Cursor) : Cursor :=
  cursor.advance (min (indent - cursor.column) (cursor.rest.takeWhile (· == ' ')).length)

/-- The line ends of empty lines, and the place after the indentation that follows them. -/
def blockBreaks (indent : Nat) : Nat → Cursor → List Char × Cursor
  | 0, cursor => ([], cursor)
  | fuel + 1, cursor =>
    let indented := skipIndent indent cursor
    match indented.takeBreak? with
    | none => ([], indented)
    | some (c, after) =>
      let (breaks, last) := blockBreaks indent fuel after
      (c :: breaks, last)

/-- Whether a line of a block stands at a place. -/
def atBlockLine (indent : Nat) (cursor : Cursor) : Bool :=
  cursor.column == indent && !cursor.rest.isEmpty

/-- What is kept between two lines: the line end of the first one, or what folding leaves of it. -/
def blockJoint (folded : Bool) (first second lineBreak breaks : List Char) : List Char :=
  let spaced := first.head?.any isSpaceOrTab || second.head?.any isSpaceOrTab
  if folded && lineBreak == ['\n'] && !spaced then (if breaks = [] then [' '] else [])
  else lineBreak

/-- The lines of a block. -/
structure BlockLines where
  /-- The lines with what is kept between them. -/
  text : List Char
  /-- The line end of the last line. -/
  lineBreak : List Char
  /-- The line ends of the empty lines after it. -/
  breaks : List Char
  /-- The place after all of them. -/
  after : Cursor

/-- Read lines of a block; `breaks` are the line ends of the empty lines before the place. -/
def readBlockLines (folded : Bool) (indent : Nat) : Nat → List Char → Cursor → BlockLines
  | 0, breaks, cursor => ⟨[], [], breaks, cursor⟩
  | fuel + 1, breaks, cursor =>
    if atBlockLine indent cursor then
      let line := cursor.rest.takeWhile (!isBreak ·)
      let ended := cursor.advance line.length
      let (lineBreak, after) : List Char × Cursor :=
        match ended.takeBreak? with
        | some (c, after) => ([c], after)
        | none => ([], ended)
      let (more, next) := blockBreaks indent (after.rest.length + 1) after
      if atBlockLine indent next then
        let tail := readBlockLines folded indent fuel more next
        let joint := blockJoint folded cursor.rest next.rest lineBreak more
        { tail with text := breaks ++ line ++ joint ++ tail.text }
      else ⟨breaks ++ line, lineBreak, more, next⟩
    else ⟨[], [], breaks, cursor⟩

/-- The text of a block whose lines have been read. -/
def BlockLines.chomp (lines : BlockLines) : Chomping → List Char
  | .strip => lines.text
  | .clip => lines.text ++ lines.lineBreak
  | .keep => lines.text ++ lines.lineBreak ++ lines.breaks

/-- Read a block scalar inside a block of an indentation; the place is that of its mark. -/
def readBlock? (folded : Bool) (outer : Int) (cursor : Cursor) : Option (List Char × Cursor) := do
  let (header, first) ← readHeader? cursor.next
  let fuel := first.rest.length + 1
  let least := (max (outer + 1) 1).toNat
  let (indent, breaks, place) :=
    match header.increment with
    | some n =>
      let indent := least + n - 1
      (indent, blockBreaks indent fuel first)
    | none =>
      let (breaks, widest, place) := leadingLines fuel 0 first
      (max least widest, breaks, place)
  let lines := readBlockLines folded indent fuel breaks place
  return (lines.chomp header.chomping, lines.after)

end Criteria.Yaml
