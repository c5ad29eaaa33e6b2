import Criteria.Yaml.Token

/-!
# Nodes of YAML text

A node is a scalar, a sequence or a mapping. Aliases are refused; anchors and the tag that asks for
nothing in particular may stand before a node, and alone before nothing.

* The readers below read the entries of one kind of collection each, with a reader for the nodes
  inside.
* `readNode?` reads one node, `readDocument?` the tokens of a text, which may hold one document at
  most.
-/

namespace Criteria.Yaml

/-- A node; `isPlain` says whether the text of a scalar may stand for something else. -/
inductive Node
  | scalar (text : Text) (isPlain : Bool)
  | sequence (items : List Node)
  | mapping (entries : List (Node × Node))

/-- The node that stands where nothing is written. -/
def Node.empty : Node := .scalar [] true

/-- Where a node stands. -/
inductive Context
  | flow
  | block
  /-- As a key or a value of a block mapping, where the items of a sequence need not be indented. -/
  | entry
  deriving DecidableEq

/-- A reader of the node at the beginning of some tokens. -/
abbrev NodeReader := Context → List Token → Option (Node × List Token)

/-- Read a node, or nothing if one of the given tokens stands in its place. -/
def readUnless (readOne : NodeReader) (context : Context) (ends tokens : List Token) :
    Option (Node × List Token) :=
  if tokens.head?.any ends.contains then some (.empty, tokens) else readOne context tokens

/-- Read the items of a block sequence and its end. -/
def readItems? (readOne : NodeReader) : Nat → List Token → Option (List Node × List Token)
  | fuel + 1, .item :: rest => do
    let (item, rest) ← readUnless readOne .block [.item, .blockEnd] rest
    let (items, rest) ← readItems? readOne fuel rest
    return (item :: items, rest)
  | _, .blockEnd :: rest => some ([], rest)
  | _, _ => none

/-- Read the items of a sequence that is not indented; it has no end of its own. -/
def readBareItems? (readOne : NodeReader) : Nat → List Token → Option (List Node × List Token)
  | fuel + 1, .item :: rest => do
    let (item, rest) ← readUnless readOne .block [.item, .key, .value, .blockEnd] rest
    let (items, rest) ← readBareItems? readOne fuel rest
    return (item :: items, rest)
  | _, rest => some ([], rest)

/-- Read the mark of a value and the value after it, up to one of the given tokens; without the mark
there is no value. -/
def readMarked (readOne : NodeReader) (context : Context) (ends : List Token) :
    List Token → Option (Node × List Token)
  | .value :: rest => readUnless readOne context ends rest
  | rest => some (.empty, rest)

/-- Read the entries of a block mapping and its end. -/
def readEntries? (readOne : NodeReader) :
    Nat → List Token → Option (List (Node × Node) × List Token)
  | fuel + 1, .key :: rest => do
    let (key, rest) ← readUnless readOne .entry [.key, .value, .blockEnd] rest
    let (value, rest) ← readMarked readOne .entry [.key, .value, .blockEnd] rest
    let (entries, rest) ← readEntries? readOne fuel rest
    return ((key, value) :: entries, rest)
  | _, .blockEnd :: rest => some ([], rest)
  | _, _ => none

/-- Read one entry of a flow sequence: a node, or a mapping of a single key. -/
def readFlowItem? (readOne : NodeReader) : List Token → Option (Node × List Token)
  | .key :: rest => do
    let (key, rest) ← readUnless readOne .flow [.value, .comma, .flowSequenceEnd] rest
    let (value, rest) ← readMarked readOne .flow [.comma, .flowSequenceEnd] rest
    return (.mapping [(key, value)], rest)
  | rest => readOne .flow rest

/-- Read the entries of a flow sequence and its end. -/
def readFlowItems? (readOne : NodeReader) : Nat → List Token → Option (List Node × List Token)
  | _, .flowSequenceEnd :: rest => some ([], rest)
  | 0, _ => none
  | fuel + 1, tokens => do
    let (item, rest) ← readFlowItem? readOne tokens
    match rest with
    | .comma :: rest =>
      let (items, rest) ← readFlowItems? readOne fuel rest
      return (item :: items, rest)
    | .flowSequenceEnd :: rest => return ([item], rest)
    | _ => none

/-- Read one entry of a flow mapping; a node without a key mark is a key without a value. -/
def readFlowEntry? (readOne : NodeReader) : List Token → Option ((Node × Node) × List Token)
  | .key :: rest => do
    let (key, rest) ← readUnless readOne .flow [.value, .comma, .flowMappingEnd] rest
    let (value, rest) ← readMarked readOne .flow [.comma, .flowMappingEnd] rest
    return ((key, value), rest)
  | rest => do
    let (key, rest) ← readOne .flow rest
    return ((key, .empty), rest)

/-- Read the entries of a flow mapping and its end. -/
def readFlowEntries? (readOne : NodeReader) :
    Nat → List Token → Option (List (Node × Node) × List Token)
  | _, .flowMappingEnd :: rest => some ([], rest)
  | 0, _ => none
  | fuel + 1, tokens => do
    let (entry, rest) ← readFlowEntry? readOne tokens
    match rest with
    | .comma :: rest =>
      let (entries, rest) ← readFlowEntries? readOne fuel rest
      return (entry :: entries, rest)
    | .flowMappingEnd :: rest => return ([entry], rest)
    | _ => none

/-- What may stand before a node. -/
structure Properties where
  anchored : Bool
  tagged : Bool

/-- The properties before a node, and the tokens after them. -/
def takeProperties : List Token → Properties × List Token
  | .anchor _ :: .tag :: rest => (⟨true, true⟩, rest)
  | .anchor _ :: rest => (⟨true, false⟩, rest)
  | .tag :: .anchor _ :: rest => (⟨true, true⟩, rest)
  | .tag :: rest => (⟨false, true⟩, rest)
  | rest => (⟨false, false⟩, rest)

/-- Read a node in which collections are nested less deeply than `depth`. -/
def readNode? : Nat → NodeReader
  | 0, _, _ => none
  | depth + 1, context, tokens =>
    let readOne := readNode? depth
    let (properties, rest) := takeProperties tokens
    let fuel := rest.length + 1
    let sequence := Option.map fun (read : List Node × List Token) => (Node.sequence read.1, read.2)
    let mapping :=
      Option.map fun (read : List (Node × Node) × List Token) => (Node.mapping read.1, read.2)
    match context, rest with
    | .entry, .item :: _ => sequence (readBareItems? readOne fuel rest)
    | _, .scalar text isPlain :: rest => some (.scalar text (isPlain || properties.tagged), rest)
    | _, .flowSequence :: rest => sequence (readFlowItems? readOne fuel rest)
    | _, .flowMapping :: rest => mapping (readFlowEntries? readOne fuel rest)
    | _, .blockSequence :: rest => sequence (readItems? readOne fuel rest)
    | _, .blockMapping :: rest => mapping (readEntries? readOne fuel rest)
    | _, rest => if properties.anchored || properties.tagged then some (.empty, rest) else none

/-- Pass over the directives before a document. There may be one version, which has to be the first
one, and one directive for each handle. -/
def skipDirectives? (seen : List Directive) : List Token → Option (List Token)
  | .directive (.version major) :: rest =>
    if major ≠ 1 ∨ seen.contains (.version 1) then none
    else skipDirectives? (.version 1 :: seen) rest
  | .directive (.tag handle) :: rest =>
    if seen.contains (.tag handle) then none else skipDirectives? (.tag handle :: seen) rest
  | .directive .other :: rest => skipDirectives? seen rest
  | rest => some rest

/-- Whether a token belongs to no document. -/
def Token.isBetween : Token → Bool
  | .directive _ | .documentStart | .documentEnd => true
  | _ => false

/-- Read what follows the beginning of a document: a node, or nothing. -/
def readContent? (tokens : List Token) : Option (Node × List Token) :=
  if tokens.head?.all Token.isBetween then some (.empty, tokens)
  else readNode? (tokens.length + 1) .block tokens

/-- The names of the anchors among tokens. -/
def anchorNames (tokens : List Token) : List (List Char) :=
  tokens.filterMap fun
    | .anchor name => some name
    | _ => none

/-- Read the document of a text; a text without one counts as an empty document. No two anchors have
the same name. -/
def readDocument? (tokens : List Token) : Option Node := do
  let (node, rest) ←
    match tokens with
    | [] => some (.empty, [])
    | .directive _ :: _ | .documentStart :: _ =>
      match ← skipDirectives? [] tokens with
      | .documentStart :: rest => readContent? rest
      | _ => none
    | _ => readNode? (tokens.length + 1) .block tokens
  if rest.all (· == .documentEnd) && (anchorNames tokens).Nodup then return node else none

end Criteria.Yaml
