import Criteria.Yaml.Block
import Criteria.Yaml.Quoted

/-!
# Tokens of YAML text

* `Token` lists what a YAML text is made of. Indentation shows as tokens too: a block collection has
  a token where it starts and one where it ends.
* `Lexer` is the state of reading tokens. A mapping key is only recognised by the colon after it, so
  every place where a key may have begun is remembered as a *candidate*: one for each flow
  collection that is open, and one for the block context around them. A colon turns the candidate
  into a key.
* `tokens` reads all tokens of a text, or says why it cannot.
-/

namespace Criteria.Yaml

/-- Directives: the version of the format, the handle of a tag, anything else. -/
inductive Directive
  | version (major : Nat)
  | tag (handle : List Char)
  | other
  deriving DecidableEq

/-- The tokens of a YAML text. -/
inductive Token
  | directive (directive : Directive)
  | documentStart
  | documentEnd
  | blockSequence
  | blockMapping
  | blockEnd
  | flowSequence
  | flowSequenceEnd
  | flowMapping
  | flowMappingEnd
  /-- The hyphen before an item of a block sequence. -/
  | item
  /-- The comma between the entries of a flow collection. -/
  | comma
  | key
  | value
  | alias
  | anchor (name : List Char)
  /-- A tag; only the one that asks for nothing in particular has a meaning here. -/
  | tag
  | scalar (text : Text) (isPlain : Bool)
  deriving DecidableEq

/-- A place where a mapping key may have begun. -/
structure Candidate where
  /-- The number of tokens before it. -/
  position : Nat
  /-- Whether nothing but a key can stand here. -/
  required : Bool
  index : Nat
  line : Nat
  column : Nat

/-- The state of reading tokens. -/
structure Lexer where
  cursor : Cursor
  /-- The tokens read so far, last first. -/
  tokens : List Token
  /-- The columns of the block collections that are open, innermost first. -/
  columns : List Nat
  /-- The candidate in the innermost open collection. -/
  candidate : Option Candidate
  /-- The candidates around the flow collections that are open, innermost first. -/
  outer : List (Option Candidate)
  /-- Whether a key without a mark may begin here. -/
  keyAllowed : Bool

namespace Lexer

/-- The state at the beginning of a text. -/
def start (text : List Char) : Lexer := ⟨Cursor.start text, [], [], none, [], true⟩

/-- Whether a flow collection is open. -/
def inFlow (lexer : Lexer) : Bool := !lexer.outer.isEmpty

/-- The column of the innermost open block collection. -/
def indent (lexer : Lexer) : Int :=
  match lexer.columns with
  | [] => -1
  | column :: _ => column

/-- Add a token. -/
def emit (lexer : Lexer) (token : Token) : Lexer := { lexer with tokens := token :: lexer.tokens }

/-- Move on by some characters. -/
def advance (lexer : Lexer) (count : Nat) : Lexer :=
  { lexer with cursor := lexer.cursor.advance count }

/-- Say whether a key may begin here. -/
def allowKey (lexer : Lexer) (allowed : Bool) : Lexer := { lexer with keyAllowed := allowed }

/-! ### Indentation -/

/-- End the block collections that stand right of a column. -/
def closeBlocks (lexer : Lexer) (column : Int) : Lexer :=
  if lexer.inFlow then lexer
  else
    let closed := (lexer.columns.takeWhile fun (c : Nat) => decide (column < (c : Int))).length
    { lexer with
      columns := lexer.columns.drop closed
      tokens := List.replicate closed .blockEnd ++ lexer.tokens }

/-- Put a token behind the first `position` ones. -/
def insertAt (lexer : Lexer) (position : Nat) (token : Token) : Lexer :=
  let later := lexer.tokens.length - position
  { lexer with tokens := lexer.tokens.take later ++ token :: lexer.tokens.drop later }

/-- Start a block collection at a column, unless one is open there, with its token behind the first
`position` ones. -/
def openBlock (lexer : Lexer) (column position : Nat) (token : Token) : Lexer :=
  if !lexer.inFlow && lexer.indent < column then
    { lexer.insertAt position token with columns := column :: lexer.columns }
  else lexer

/-! ### Candidates for keys -/

/-- Give up the candidate of the innermost collection, if it can be given up. -/
def dropCandidate? (lexer : Lexer) : Option Lexer :=
  if lexer.candidate.any (·.required) then none else some { lexer with candidate := none }

/-- Remember the place as a candidate, if a key may begin here. -/
def saveCandidate? (lexer : Lexer) : Option Lexer :=
  if lexer.keyAllowed then do
    let lexer ← lexer.dropCandidate?
    let cursor := lexer.cursor
    let required := !lexer.inFlow && lexer.indent == cursor.column
    return { lexer with
      candidate :=
        some ⟨lexer.tokens.length, required, cursor.index, cursor.line, cursor.column⟩ }
  else some lexer

/-- How far behind a candidate its colon may stand. -/
def candidateReach : Nat := 1024

/-- Whether a candidate is of no use at a place: its colon has to stand in its line and not too far
behind. -/
def isStale (cursor : Cursor) (candidate : Candidate) : Bool :=
  candidate.line != cursor.line || candidateReach < cursor.index - candidate.index

/-- A candidate, unless it is stale; nothing at all if it is stale and cannot be given up. -/
def refresh? (cursor : Cursor) (candidate : Option Candidate) : Option (Option Candidate) :=
  match candidate with
  | none => some none
  | some c => if isStale cursor c then (if c.required then none else some none) else some (some c)

/-- Give up all candidates that are stale. -/
def dropStale? (lexer : Lexer) : Option Lexer := do
  let candidate ← refresh? lexer.cursor lexer.candidate
  let outer ← lexer.outer.mapM (refresh? lexer.cursor)
  return { lexer with candidate := candidate, outer := outer }

/-! ### Tokens -/

/-- Move on to the next token, over spaces, comments and line ends. -/
def skipToToken : Nat → Lexer → Lexer
  | 0, lexer => lexer
  | fuel + 1, lexer =>
    let cursor := lexer.cursor.skipSpaces.skipComment
    match cursor.takeBreak? with
    | none => { lexer with cursor := cursor }
    | some (_, after) =>
      skipToToken fuel
        { lexer with cursor := after, keyAllowed := lexer.keyAllowed || !lexer.inFlow }

/-- Leave all blocks before a directive, a mark between documents, or the end. -/
def leaveBlocks? (lexer : Lexer) : Option Lexer := do
  let lexer ← (lexer.closeBlocks (-1)).dropCandidate?
  return lexer.allowKey false

/-- Read the opening mark of a flow collection. -/
def openFlow? (lexer : Lexer) (token : Token) : Option Lexer := do
  let lexer ← lexer.saveCandidate?
  return { ((lexer.emit token).advance 1).allowKey true with
    candidate := none
    outer := lexer.candidate :: lexer.outer }

/-- Read the closing mark of a flow collection. -/
def closeFlow? (lexer : Lexer) (token : Token) : Option Lexer := do
  let lexer ← lexer.dropCandidate?
  match lexer.outer with
  | [] => none
  | candidate :: outer =>
    return { ((lexer.emit token).advance 1).allowKey false with
      candidate := candidate
      outer := outer }

/-- Read the comma between entries of a flow collection. -/
def comma? (lexer : Lexer) : Option Lexer := do
  let lexer ← lexer.dropCandidate?
  return ((lexer.emit .comma).advance 1).allowKey true

/-- Read the hyphen before an item. -/
def item? (lexer : Lexer) : Option Lexer := do
  if !lexer.inFlow && !lexer.keyAllowed then none
  let opened := lexer.openBlock lexer.cursor.column lexer.tokens.length .blockSequence
  let lexer ← opened.dropCandidate?
  return ((lexer.emit .item).advance 1).allowKey true

/-- Read the mark before a key or a value that has no candidate. -/
def mark? (lexer : Lexer) (token : Token) : Option Lexer := do
  if !lexer.inFlow && !lexer.keyAllowed then none
  let opened := lexer.openBlock lexer.cursor.column lexer.tokens.length .blockMapping
  let lexer ← opened.dropCandidate?
  return ((lexer.emit token).advance 1).allowKey !lexer.inFlow

/-- Read the colon before a value. -/
def value? (lexer : Lexer) : Option Lexer :=
  match lexer.candidate with
  | none => lexer.mark? .value
  | some c =>
    let keyed := (lexer.insertAt c.position .key).openBlock c.column c.position .blockMapping
    some { ((keyed.emit .value).advance 1).allowKey false with candidate := none }

/-- Whether a character may stand in the name of an anchor, a directive or a handle. -/
def isNameChar (c : Char) : Bool := c.isAlphanum || c == '-' || c == '_'

/-- Read the name of an anchor or an alias after its mark. -/
def anchor? (lexer : Lexer) (token : List Char → Token) : Option Lexer := do
  let lexer ← lexer.saveCandidate?
  let start := lexer.cursor.next
  let after := start.skipWhile isNameChar
  if after.index = start.index then none
  let ends := after.peek.all fun c =>
    isGap c || ['?', ':', ',', ']', '\x7d', '%', '@', '\x60'].contains c
  if !ends then none
  let name := start.rest.take (after.index - start.index)
  return { (lexer.emit (token name)).allowKey false with cursor := after }

/-- Read the tag that asks for nothing in particular; other tags are refused. -/
def tag? (lexer : Lexer) : Option Lexer := do
  let lexer ← lexer.saveCandidate?
  if lexer.cursor.next.peek.all fun c => c == ' ' || isBreak c then
    return ((lexer.emit .tag).advance 1).allowKey false
  else none

/-- Read a quoted scalar. -/
def quoted (lexer : Lexer) (style : QuoteStyle) : Except Fault Lexer := do
  let lexer ← wellFormed lexer.saveCandidate?
  let (text, after) ← readQuoted style lexer.cursor
  return { (lexer.emit (.scalar text false)).allowKey false with cursor := after }

/-- Read a block scalar. -/
def block? (lexer : Lexer) (folded : Bool) : Option Lexer := do
  let lexer ← lexer.dropCandidate?
  let (text, after) ← readBlock? folded lexer.indent lexer.cursor
  return { (lexer.emit (.scalar (Text.ofChars text) false)).allowKey true with cursor := after }

/-- Read a plain scalar. A key may begin after it only if it ends with a line. -/
def plain? (lexer : Lexer) : Option Lexer := do
  let lexer ← lexer.saveCandidate?
  let (text, after, newLine) := readPlain lexer.inFlow lexer.indent lexer.cursor
  return { (lexer.emit (.scalar (Text.ofChars text) true)).allowKey newLine with cursor := after }

/-- Whether a plain scalar may begin with a character. -/
def startsPlain (lexer : Lexer) (c : Char) (rest : List Char) : Bool :=
  !(isGap c || isFlowMark c ||
      ['-', '?', ':', '#', '&', '*', '!', '|', '>', '\x27', '"', '%', '@', '\x60'].contains c) ||
    (!Cursor.endsWord rest && (c == '-' || (!lexer.inFlow && (c == '?' || c == ':'))))

/-! ### Directives -/

/-- Read the number of a version. -/
def versionNumber? (cursor : Cursor) : Option (List Char × Cursor) :=
  let digits := cursor.rest.takeWhile Char.isDigit
  if digits.isEmpty then none else some (digits, cursor.advance digits.length)

/-- Whether a word ends at a place, not counting tabs as gaps. -/
def endsField (cursor : Cursor) : Bool := cursor.peek.all fun c => c == ' ' || isBreak c

/-- Read the version in a directive. -/
def version? (cursor : Cursor) : Option (Directive × Cursor) := do
  let (major, after) ← versionNumber? cursor.skipSpaces
  if after.peek ≠ some '.' then none
  let (_, last) ← versionNumber? after.next
  let isOne := major.dropWhile (· == '0') == ['1']
  if endsField last then return (.version (if isOne then 1 else 0), last) else none

/-- Whether a character may stand in the beginning that a handle stands for. -/
def isUriChar (c : Char) : Bool := c.isAlphanum || "-;/?:@&=+$,_.!~*'()[]%".toList.contains c

/-- Read the handle of a tag and what it stands for. -/
def handle? (cursor : Cursor) : Option (Directive × Cursor) := do
  let start := cursor.skipSpaces
  if start.peek ≠ some '!' then none
  let named := start.next.skipWhile isNameChar
  let after ← if named.peek = some '!' then some named.next
    else if named.index = start.index + 1 then some named else none
  if after.peek ≠ some ' ' then none
  let uri := after.skipSpaces
  let last := uri.skipWhile isUriChar
  if last.index = uri.index || !endsField last then none
  return (.tag (start.rest.take (after.index - start.index)), last)

/-- Read a directive; the place is that of its mark. -/
def directive? (lexer : Lexer) : Option Lexer := do
  let lexer ← lexer.leaveBlocks?
  let start := lexer.cursor.next
  let named := start.skipWhile isNameChar
  let name := start.rest.take (named.index - start.index)
  if name.isEmpty || !endsField named then none
  let (directive, after) ←
    if name = "YAML".toList then version? named
    else if name = "TAG".toList then handle? named
    else some (.other, named.skipWhile (!isBreak ·))
  return { lexer.emit (.directive directive) with cursor := ← after.restOfLine? }

/-! ### The whole text -/

/-- Read the token that begins with a character other than a quote. -/
def token? (lexer : Lexer) (c : Char) (rest : List Char) : Option Lexer :=
  let marked := lexer.inFlow || Cursor.endsWord rest
  if lexer.cursor.column = 0 ∧ c = '%' then lexer.directive?
  else if lexer.cursor.column = 0 ∧ lexer.cursor.atMark then do
    let lexer ← lexer.leaveBlocks?
    return (lexer.emit (if c = '-' then .documentStart else .documentEnd)).advance 3
  else if c = '[' then lexer.openFlow? .flowSequence
  else if c = '\x7b' then lexer.openFlow? .flowMapping
  else if c = ']' then lexer.closeFlow? .flowSequenceEnd
  else if c = '\x7d' then lexer.closeFlow? .flowMappingEnd
  else if c = ',' then lexer.comma?
  else if c = '-' ∧ Cursor.endsWord rest then lexer.item?
  else if c = '?' ∧ marked then lexer.mark? .key
  else if c = ':' ∧ marked then lexer.value?
  else if c = '*' then lexer.anchor? fun _ => .alias
  else if c = '&' then lexer.anchor? .anchor
  else if c = '!' then lexer.tag?
  else if c = '|' ∧ !lexer.inFlow then lexer.block? false
  else if c = '>' ∧ !lexer.inFlow then lexer.block? true
  else if lexer.startsPlain c rest then lexer.plain?
  else none

/-- Read the token that begins with a character. -/
def token (lexer : Lexer) (c : Char) (rest : List Char) : Except Fault Lexer :=
  if c = QuoteStyle.single.mark then lexer.quoted .single
  else if c = QuoteStyle.double.mark then lexer.quoted .double
  else wellFormed (lexer.token? c rest)

/-- Read tokens up to the end of the text. -/
def run : Nat → Lexer → Except Fault (List Token)
  | 0, _ => .error .malformed
  | fuel + 1, lexer => do
    let next := skipToToken (lexer.cursor.rest.length + 1) lexer
    let fresh ← wellFormed next.dropStale?
    let lexer := fresh.closeBlocks fresh.cursor.column
    match lexer.cursor.rest with
    | [] => return (← wellFormed lexer.leaveBlocks?).tokens.reverse
    | c :: rest => run fuel (← lexer.token c rest)

end Lexer

/-- The tokens of a text. -/
def tokens (text : List Char) : Except Fault (List Token) :=
  if text.all isPrintable then (Lexer.start text).run (text.length + 1) else .error .malformed

end Criteria.Yaml
