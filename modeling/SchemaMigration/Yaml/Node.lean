import SchemaMigration.Yaml.Token

/-!
# Nodes of a YAML document

The tree that the tokens of a document describe: scalars, sequences and mappings with their tags and anchors, and
aliases. Every function takes the tokens from the front of the list and fails where the grammar allows none of them.

An anchor is known by a number. A name that is used anew gets the number that the next new name would get, so that an
alias means what was anchored last under its number.
-/

namespace SchemaMigration.Yaml

/-- What stands before a node's content. -/
structure Properties where
  anchor : Option Nat := none
  tag : Option (List Char) := none
  deriving Repr

/-- A node of a document. -/
inductive Node where
  | alias (anchor : Nat)
  | scalar (properties : Properties) (text : List Char) (style : ScalarStyle)
  | sequence (properties : Properties) (items : List Node)
  | mapping (properties : Properties) (entries : List (Node × Node))
  deriving Repr, Inhabited

namespace Node

/-- A node that is not written out. -/
def empty : Node :=
  .scalar {} [] .plain

/-- The tokens still to be read, and the numbers of the anchors so far. -/
structure Source where
  tokens : List Token
  anchors : List (List Char × Nat) := []

/-- A part of the grammar. -/
abbrev Reader (α : Type) := StateT Source Option α

/-- The next token. -/
def peek : Reader (Option Token) := do
  return (← get).tokens.head?

/-- Passes the next token. -/
def skip : Reader Unit :=
  modify fun s => { s with tokens := s.tokens.tail }

/-- Whether the next token is one of these. -/
def nextIsOneOf (ts : List Token) : Reader Bool := do
  return (← peek).any ts.contains

/-- Passes the next token if it is `t`. -/
def skipIf (t : Token) : Reader Bool := do
  let found := (← peek) == some t
  if found then skip
  return found

/-- A number for an anchor. -/
def defineAnchor (name : List Char) : Reader Nat :=
  modifyGet fun s =>
    let n := s.anchors.length
    let anchors :=
      if s.anchors.any (·.1 == name) then s.anchors.map fun a => if a.1 == name then (name, n) else a
      else s.anchors ++ [(name, n)]
    (n, { s with anchors })

/-- The number of a name that an anchor has defined. -/
def anchorNumber (name : List Char) : Reader Nat := do
  match (← get).anchors.lookup name with
  | some n => return n
  | none => failure

/-- A tag in full, its handle replaced by the prefix it stands for. -/
def resolveTag (handles : List (List Char × List Char)) (handle suffix : List Char) : Option (List Char) :=
  if handle.isEmpty then some suffix else (handles.lookup handle).map (· ++ suffix)

/-- The name of an anchor and a tag in front of a node, in either order. -/
def readProperties (handles : List (List Char × List Char)) :
    Reader (Option (List Char) × Option (List Char)) := do
  match ← peek with
  | some (.anchor name) =>
    skip
    match ← peek with
    | some (.tag handle suffix) =>
      skip
      return (some name, some (← resolveTag handles handle suffix))
    | _ => return (some name, none)
  | some (.tag handle suffix) =>
    skip
    match ← peek with
    | some (.anchor name) =>
      skip
      return (some name, some (← resolveTag handles handle suffix))
    | _ => return (none, some (← resolveTag handles handle suffix))
  | _ => return (none, none)

/-- The properties of a node whose content starts here. -/
def enter (anchor : Option (List Char)) (tag : Option (List Char)) : Reader Properties := do
  match anchor with
  | some name => return { anchor := some (← defineAnchor name), tag }
  | none => return { tag }

mutual

/-- A node. `block` allows block collections, `indentless` a block sequence at the column of its mapping. -/
def read (handles : List (List Char × List Char)) : Nat → Bool → Bool → Reader Node
  | 0, _, _ => failure
  | fuel + 1, block, indentless => do
    if let some (.alias name) ← peek then
      skip
      return .alias (← anchorNumber name)
    let (anchor, tag) ← readProperties handles
    match ← peek with
    | some (.scalar text style) =>
      skip
      -- the tag `!` leaves a scalar's meaning to its text
      let bare := tag == some ['!']
      let properties ← enter anchor (if bare then none else tag)
      return .scalar properties text style
    | some .flowSequenceStart =>
      let properties ← enter anchor tag
      skip
      return .sequence properties (← readFlowItems handles fuel true)
    | some .flowMappingStart =>
      let properties ← enter anchor tag
      skip
      return .mapping properties (← readFlowEntries handles fuel true)
    | some .blockEntry =>
      if indentless then
        let properties ← enter anchor tag
        return .sequence properties (← readIndentlessItems handles fuel)
      else if anchor.isSome || tag.isSome then return .scalar (← enter anchor tag) [] .plain
      else failure
    | some .blockSequenceStart =>
      if block then
        let properties ← enter anchor tag
        skip
        return .sequence properties (← readBlockItems handles fuel)
      else if anchor.isSome || tag.isSome then return .scalar (← enter anchor tag) [] .plain
      else failure
    | some .blockMappingStart =>
      if block then
        let properties ← enter anchor tag
        skip
        return .mapping properties (← readBlockEntries handles fuel)
      else if anchor.isSome || tag.isSome then return .scalar (← enter anchor tag) [] .plain
      else failure
    | _ =>
      if anchor.isSome || tag.isSome then return .scalar (← enter anchor tag) [] .plain
      else failure

/-- The items of a block sequence, to its end. -/
def readBlockItems (handles : List (List Char × List Char)) : Nat → Reader (List Node)
  | 0 => failure
  | fuel + 1 => do
    if ← skipIf .blockEntry then
      let item ←
        if ← nextIsOneOf [.blockEntry, .blockEnd] then pure empty else read handles fuel true false
      return item :: (← readBlockItems handles fuel)
    else if ← skipIf .blockEnd then return []
    else failure

/-- The items of a block sequence at the column of its mapping. -/
def readIndentlessItems (handles : List (List Char × List Char)) : Nat → Reader (List Node)
  | 0 => failure
  | fuel + 1 => do
    if ← skipIf .blockEntry then
      let item ←
        if ← nextIsOneOf [.blockEntry, .key, .value, .blockEnd] then pure empty else read handles fuel true false
      return item :: (← readIndentlessItems handles fuel)
    else return []

/-- The entries of a block mapping, to its end. -/
def readBlockEntries (handles : List (List Char × List Char)) : Nat → Reader (List (Node × Node))
  | 0 => failure
  | fuel + 1 => do
    if ← skipIf .key then
      let key ←
        if ← nextIsOneOf [.key, .value, .blockEnd] then pure empty else read handles fuel true true
      let value ←
        if ← skipIf .value then
          if ← nextIsOneOf [.key, .value, .blockEnd] then pure empty else read handles fuel true true
        else pure empty
      return (key, value) :: (← readBlockEntries handles fuel)
    else if ← skipIf .blockEnd then return []
    else failure

/-- The items of a flow sequence, to its closing bracket. A marked key makes an item a mapping of its own. -/
def readFlowItems (handles : List (List Char × List Char)) : Nat → Bool → Reader (List Node)
  | 0, _ => failure
  | fuel + 1, first => do
    if ← skipIf .flowSequenceEnd then return []
    unless first do
      unless ← skipIf .flowEntry do failure
    if ← skipIf .flowSequenceEnd then return []
    let item ←
      if ← skipIf .key then
        let key ←
          if ← nextIsOneOf [.value, .flowEntry, .flowSequenceEnd] then
            -- the token after a key that is not written out is passed with it
            skip
            pure empty
          else read handles fuel false false
        let value ←
          if ← skipIf .value then
            if ← nextIsOneOf [.flowEntry, .flowSequenceEnd] then pure empty else read handles fuel false false
          else pure empty
        pure (.mapping {} [(key, value)])
      else read handles fuel false false
    return item :: (← readFlowItems handles fuel false)

/-- The entries of a flow mapping, to its closing brace. -/
def readFlowEntries (handles : List (List Char × List Char)) : Nat → Bool → Reader (List (Node × Node))
  | 0, _ => failure
  | fuel + 1, first => do
    if ← skipIf .flowMappingEnd then return []
    unless first do
      unless ← skipIf .flowEntry do failure
    if ← skipIf .flowMappingEnd then return []
    let entry ←
      if ← skipIf .key then
        let key ←
          if ← nextIsOneOf [.value, .flowEntry, .flowMappingEnd] then pure empty else read handles fuel false false
        let value ←
          if ← skipIf .value then
            if ← nextIsOneOf [.flowEntry, .flowMappingEnd] then pure empty else read handles fuel false false
          else pure empty
        pure (key, value)
      else
        let key ← read handles fuel false false
        pure (key, empty)
    return entry :: (← readFlowEntries handles fuel false)

end

/-- The handles that a document knows without declaring them. -/
def standardHandles : List (List Char × List Char) :=
  [(['!'], ['!']), (['!', '!'], "tag:yaml.org,2002:".toList)]

/-- The directives in front of a document: at most one version, 1.1 or 1.2, and the handles declared, none twice. -/
def readDirectives (versionSeen : Bool) (handles : List (List Char × List Char)) :
    List Token → Option (List (List Char × List Char) × List Token)
  | .versionDirective major minor :: ts =>
    if versionSeen || major != 1 || !(minor == 1 || minor == 2) then none else readDirectives true handles ts
  | .tagDirective handle text :: ts =>
    if handles.any (·.1 == handle) then none else readDirectives versionSeen (handles ++ [(handle, text)]) ts
  | ts => some (handles ++ standardHandles, ts)

/-- The tokens that no content follows in a document that is marked as one. -/
def endsDocument : Token → Bool
  | .versionDirective .. | .tagDirective .. | .documentStart | .documentEnd | .streamEnd => true
  | _ => false

/-- The only document of a stream, or `none` inside for a stream without one. -/
def ofTokens? (tokens : List Token) : Option (Option Node) := do
  let fuel := 4 * tokens.length + 4
  let closed (ts : List Token) : Bool := ts.dropWhile (· == .documentEnd) == [.streamEnd]
  match tokens with
  | [.streamEnd] => some none
  | t :: _ =>
    let explicit := match t with
      | .versionDirective .. | .tagDirective .. | .documentStart => true
      | _ => false
    if explicit then
      let (handles, ts) ← readDirectives false [] tokens
      match ts with
      | .documentStart :: ts =>
        if ts.head?.any endsDocument then if closed ts then some (some empty) else none
        else
          let (node, s) ← (read handles fuel true false).run { tokens := ts }
          if closed s.tokens then some (some node) else none
      | _ => none
    else
      let (node, s) ← (read standardHandles fuel true false).run { tokens }
      if closed s.tokens then some (some node) else none
  | [] => none

end Node

end SchemaMigration.Yaml
