import SchemaMigration.Template.Expr

/-!
# Templates

A template is text with outputs, comments and tags in braces; the tags make loops and conditions. It is read in two
steps: first into segments, where a `-` inside a brace strips the white space on its side, then into a tree.
-/

namespace SchemaMigration.Template

/-- A segment of a template. -/
inductive Segment where
  | text (value : List Char)
  | output (tokens : List Token)
  | tag (tokens : List Token)
  deriving Repr, DecidableEq

/-- What a pair of characters opens. -/
inductive Opening where
  | output | tag | comment
  deriving Repr, DecidableEq

/-- The opening in front of a text, whether it strips the text before it, and what follows. -/
def opening? : List Char → Option (Opening × Bool × List Char)
  | '\x7b' :: c :: r =>
    let kind : Option Opening :=
      if c == '\x7b' then some .output else if c == '%' then some .tag else if c == '#' then some .comment else none
    kind.map fun kind =>
      match r with
      | '-' :: r => (kind, true, r)
      | '+' :: r => (kind, false, r)
      | r => (kind, false, r)
  | _ => none

/-- The text up to the next opening, and what follows. -/
def readPlainText : List Char → List Char × List Char
  | [] => ([], [])
  | c :: r =>
    if (opening? (c :: r)).isSome then ([], c :: r)
    else
      let (text, rest) := readPlainText r
      (c :: text, rest)

/-- What follows a comment, and whether the comment strips it. -/
def skipComment : List Char → Option (Bool × List Char)
  | '-' :: '#' :: '\x7d' :: r => some (true, r)
  | '#' :: '\x7d' :: r => some (false, r)
  | _ :: r => skipComment r
  | [] => none

/-- The segments of a template; `strip` says that the white space in front is dropped. One call a segment. -/
def readSegments : Nat → Bool → List Char → Option (List Segment)
  | 0, _, _ => none
  | fuel + 1, strip, s =>
    let s := if strip then Text.dropBlank s else s
    let (text, r) := readPlainText s
    match opening? r with
    | none => some [.text text]
    | some (kind, stripBefore, r) =>
      let text := Segment.text (if stripBefore then Text.dropBlankEnd text else text)
      match kind with
      | .output => do
        let (tokens, strip, r) ← readTokens '\x7d' (r.length + 1) r
        return text :: .output tokens :: (← readSegments fuel strip r)
      | .tag => do
        let (tokens, strip, r) ← readTokens '%' (r.length + 1) r
        return text :: .tag tokens :: (← readSegments fuel strip r)
      | .comment => do
        let (strip, r) ← skipComment r
        return text :: (← readSegments fuel strip r)

/-- A node of a template. -/
inductive Node where
  | text (value : String)
  | output (e : Expr)
  /-- The body once for each item, or the other nodes if there is none. -/
  | forEach (name : String) (e : Expr) (body otherwise : List Node)
  | choose (condition : Expr) (body otherwise : List Node)
  deriving Repr, Inhabited

mutual

/-- The nodes up to a tag that opens none, which is left in front of the rest. -/
def readNodes : Nat → List Segment → Option (List Node × List Segment)
  | 0, _ => none
  | fuel + 1, segments =>
    match segments with
    | [] => some ([], [])
    | .text s :: rest => do
      let (nodes, rest) ← readNodes fuel rest
      return (if s.isEmpty then nodes else .text (String.ofList s) :: nodes, rest)
    | .output tokens :: rest => do
      let e ← Expr.ofTokens? tokens
      let (nodes, rest) ← readNodes fuel rest
      return (.output e :: nodes, rest)
    | .tag (.word "for" :: .word name :: .word "in" :: tokens) :: rest => do
      let e ← Expr.ofTokens? tokens
      if reservedWords.contains name then none
      let (body, otherwise, rest) ← readBody fuel "endfor" rest
      let (nodes, rest) ← readNodes fuel rest
      return (.forEach name e body otherwise :: nodes, rest)
    | .tag (.word "if" :: tokens) :: rest => do
      let e ← Expr.ofTokens? tokens
      let (body, otherwise, rest) ← readBody fuel "endif" rest
      let (nodes, rest) ← readNodes fuel rest
      return (.choose e body otherwise :: nodes, rest)
    | .tag tokens :: rest => some ([], .tag tokens :: rest)

/-- The nodes between an opening tag and the closing one, and those after `else`, if there are any. -/
def readBody : Nat → String → List Segment → Option (List Node × List Node × List Segment)
  | 0, _, _ => none
  | fuel + 1, close, segments => do
    let (body, rest) ← readNodes fuel segments
    match rest with
    | .tag [.word name] :: rest =>
      if name == close then some (body, [], rest)
      else if name == "else" then
        let (otherwise, rest) ← readNodes fuel rest
        match rest with
        | .tag [.word name] :: rest => if name == close then some (body, otherwise, rest) else none
        | _ => none
      else none
    | _ => none

end

/-- The tree of a template. -/
def parse? (source : String) : Option (List Node) := do
  let s := source.toList
  let segments ← readSegments (s.length + 1) false s
  let (nodes, rest) ← readNodes (3 * segments.length + 3) segments
  if rest.isEmpty then some nodes else none

/-- The scopes of a loop's body, one for each item. -/
def loopScopes (scope : Scope) (name : String) (items : List Value) : List Scope :=
  items.zipIdx.map fun (item, i) => (name, item) :: ("loop", .loop i items.length) :: scope

mutual

/-- A node among the variables in scope. -/
def Node.render (scope : Scope) : Node → Except RenderError String
  | .text s => .ok s
  | .output e => do .ok (← e.eval scope).display
  | .forEach name e body otherwise => do
    match (← e.eval scope).items? with
    | none => .error .invalidOperation
    | some [] => renderNodes scope otherwise
    | some items => do
      let parts ← (loopScopes scope name items).mapM fun inner => renderNodes inner body
      .ok ("".intercalate parts)
  | .choose condition body otherwise => do
    if (← condition.eval scope).isTrue then renderNodes scope body else renderNodes scope otherwise

/-- Nodes one after the other. -/
def renderNodes (scope : Scope) : List Node → Except RenderError String
  | [] => .ok ""
  | n :: ns => do
    let s ← n.render scope
    let r ← renderNodes scope ns
    .ok (s ++ r)

end

end SchemaMigration.Template
