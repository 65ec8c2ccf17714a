import SchemaMigration.Yaml.Node
import SchemaMigration.Yaml.Plain

/-!
# Values of a YAML document

What the nodes of a document stand for. Aliases are replaced by what they refer to, plain scalars are given their
type, and the tags of the standard types force one; any other local tag is kept (`Value.tagged`). A mapping may not
hold a key twice, collections may not be nested deeper than 128, and aliases may not be followed more often than a
hundred times the number of nodes.
-/

namespace SchemaMigration.Yaml

/-- A value. Integers lie between the least of 64 bits with a sign and the greatest of 64 bits without one. -/
inductive Value where
  | null
  | bool (value : Bool)
  | int (value : Int)
  | float (value : Float)
  | text (value : String)
  | sequence (items : List Value)
  | mapping (entries : List (Value × Value))
  | tagged (tag : String) (value : Value)
  deriving Repr, Inhabited

namespace Value

mutual

/-- Two values are the same key: NaN is the same as itself, and the order of a mapping does not count. -/
def same : Value → Value → Bool
  | null, null => true
  | bool a, bool b => a == b
  | int a, int b => a == b
  | float x, float y => x == y || (x.isNaN && y.isNaN)
  | text a, text b => a == b
  | sequence xs, sequence ys => sameItems xs ys
  | mapping xs, mapping ys => xs.length == ys.length && sameEntries xs ys
  | tagged s a, tagged t b => s == t && same a b
  | _, _ => false

/-- Two sequences are the same. -/
def sameItems : List Value → List Value → Bool
  | [], [] => true
  | x :: xs, y :: ys => same x y && sameItems xs ys
  | _, _ => false

/-- Each entry is also one of `ys`. -/
def sameEntries : List (Value × Value) → List (Value × Value) → Bool
  | [], _ => true
  | (k, v) :: xs, ys => (ys.any fun (l, w) => same k l && same v w) && sameEntries xs ys

end

/-- The value without its tags. -/
def untagged : Value → Value
  | tagged _ v => untagged v
  | v => v

/-! ## Scalars -/

/-- An integer that 64 bits hold. -/
def ofInteger? (n : Int) : Option Value :=
  if Int64.minValue.toInt ≤ n && n < UInt64.size then some (int n) else none

/-- The integer that a text spells: `none` if it spells none of at most 128 bits, and `none` inside if it does not fit
in 64. -/
def integerValue? (s : List Char) : Option (Option Value) :=
  match integer? s with
  | some n =>
    let half : Int := Nat.pow 2 127
    if -half ≤ n && n < 2 * half then some (ofInteger? n) else none
  | none => none

/-- A plain scalar. -/
def ofPlain? (s : List Char) : Option Value :=
  if s.isEmpty || isNullWord s then some null
  else
    match boolWord? s with
    | some b => some (bool b)
    | none =>
      match integerValue? s with
      | some v => v
      | none =>
        if hasLeadingZero s then some (text (String.ofList s))
        else
          match float? s with
          | some x => some (float x)
          | none => some (text (String.ofList s))

/-- What stands in front of the names of the standard types. -/
def standardPrefix : List Char :=
  "tag:yaml.org,2002:".toList

/-- A scalar with the tag of a standard type, or of any other type that is not local. -/
def ofTagged? (tag s : List Char) : Option Value :=
  if tag == standardPrefix ++ "bool".toList then (boolWord? s).map bool
  else if tag == standardPrefix ++ "int".toList then (integerValue? s).join
  else if tag == standardPrefix ++ "float".toList then (float? s).map float
  else if tag == standardPrefix ++ "null".toList then if isNullWord s then some null else none
  else some (text (String.ofList s))

/-- The name of a local tag: what follows its exclamation mark, or the mark if nothing does. -/
def localTag? : Option (List Char) → Option String
  | some ['!'] => some "!"
  | some ('!' :: r) => some (String.ofList r)
  | _ => none

/-- A scalar. -/
def ofScalar? (properties : Properties) (s : List Char) (style : ScalarStyle) : Option Value :=
  let untyped : Option Value := if style == .plain then ofPlain? s else some (text (String.ofList s))
  match localTag? properties.tag with
  | some tag => untyped.map (tagged tag)
  | none =>
    match properties.tag with
    | some tag => ofTagged? tag s
    | none => untyped

end Value

namespace Node

mutual

/-- How many nodes and ends of collections a node has. -/
def eventCount : Node → Nat
  | .alias _ | .scalar .. => 1
  | .sequence _ items => 2 + itemsEventCount items
  | .mapping _ entries => 2 + entriesEventCount entries

def itemsEventCount : List Node → Nat
  | [] => 0
  | n :: ns => eventCount n + itemsEventCount ns

def entriesEventCount : List (Node × Node) → Nat
  | [] => 0
  | (k, v) :: es => eventCount k + eventCount v + entriesEventCount es

end

/-- The number of an anchor in front of the node, with the node. -/
def ownAnchor (n : Node) : List (Nat × Node) :=
  match n with
  | .scalar p .. | .sequence p _ | .mapping p _ => p.anchor.toList.map fun id => (id, n)
  | .alias _ => []

mutual

/-- The anchored nodes with their numbers, in the order of the document. -/
def anchors : Node → List (Nat × Node)
  | .sequence p items => ownAnchor (.sequence p items) ++ itemsAnchors items
  | .mapping p entries => ownAnchor (.mapping p entries) ++ entriesAnchors entries
  | .scalar p s style => ownAnchor (.scalar p s style)
  | .alias _ => []

def itemsAnchors : List Node → List (Nat × Node)
  | [] => []
  | n :: ns => anchors n ++ itemsAnchors ns

def entriesAnchors : List (Node × Node) → List (Nat × Node)
  | [] => []
  | (k, v) :: es => anchors k ++ anchors v ++ entriesAnchors es

end

/-- How deep collections may be nested. -/
def depthLimit : Nat := 128

/-- An entry of a mapping with the entries before it, reversed; fails if its key is there already. -/
def addEntry (done : List (Value × Value)) (e : Value × Value) : Option (List (Value × Value)) :=
  if done.any fun d => Value.same d.1 e.1 then none else some (e :: done)

/-- The entries of a mapping, if no two have the same key. -/
def distinctEntries (entries : List (Value × Value)) : Option (List (Value × Value)) :=
  (entries.foldlM addEntry []).map List.reverse

/-- The value with the local tag of its node, if it has one. -/
def withTag (p : Properties) (v : Value) : Value :=
  match Value.localTag? p.tag with
  | some tag => .tagged tag v
  | none => v

/-- The value of a node in collections that leave room for `depth` more. The state counts how many aliases may still
be followed. Every call takes one from the fuel; two calls, for an alias and the collection it refers to, go with each
level of depth. -/
def value (table : List (Nat × Node)) : Nat → Nat → Node → StateT Nat Option Value
  | 0, _, _ => failure
  | fuel + 1, depth, node =>
    match node with
    | .alias id => do
      let left ← get
      if left == 0 then failure
      set (left - 1)
      match table.reverse.lookup id with
      | some target => value table fuel depth target
      | none => failure
    | .scalar p s style => StateT.lift (Value.ofScalar? p s style)
    | .sequence p items =>
      if depth == 0 then failure
      else do
        let items ← items.mapM (value table fuel (depth - 1))
        return withTag p (.sequence items)
    | .mapping p entries =>
      if depth == 0 then failure
      else do
        let entries ← entries.mapM fun (k, v) => do
          return (← value table fuel (depth - 1) k, ← value table fuel (depth - 1) v)
        return withTag p (.mapping (← StateT.lift (distinctEntries entries)))

end Node

/-- The value that a document holds; null if there is none. -/
def read? (text : String) : Option Value := do
  let tokens ← Token.scan? text.toList
  match ← Node.ofTokens? tokens with
  | none => some .null
  | some node =>
    let limit := 100 * node.eventCount
    (·.1) <$> (node.value node.anchors (2 * Node.depthLimit + 3) Node.depthLimit).run limit

end SchemaMigration.Yaml
