import BraceTemplate.Yaml.Layout

/-! The document that a row of tokens describes. -/
namespace BraceTemplate.Yaml

/-- What is left to read, and what is known so far. -/
structure Reading where
  rest : List Token
  /-- What tag handles stand for. -/
  handles : List (List Char × List Char)
  anchors : List Anchor
  nodes : List (Nat × Node)

abbrev Read := StateT Reading Option

namespace Read

def fail {α : Type} : Read α := fun _ => none

def head? : Read (Option Token) := do return (← get).rest.head?

def advance : Read Unit := modify fun r => { r with rest := r.rest.drop 1 }

/-- Whether the next token is one of some. -/
def next (tokens : List Token) : Read Bool := do
  return ((← head?).map tokens.contains).getD false

/-- Takes the next token if it is the given one. -/
def take (token : Token) : Read Bool := do
  if ← next [token] then
    advance
    return true
  else return false

/-- The text of a tag; its handle must be known. -/
def tagText (handle suffix : List Char) : Read String := do
  if handle = [] then return .ofList suffix
  else match (← get).handles.lookup handle with
    | some expansion => return .ofList (expansion ++ suffix)
    | none => fail

/-- The properties of a node: at most one anchor and one tag, in either order. -/
structure Properties where
  anchor : Option String
  tag : Option String

def anchor? : Read (Option String) := do
  match ← head? with
  | some (.anchor name) =>
    advance
    return some (.ofList name)
  | _ => return none

def tag? : Read (Option String) := do
  match ← head? with
  | some (.tag handle suffix) =>
    advance
    return some (← tagText handle suffix)
  | _ => return none

def properties : Read Properties := do
  match ← tag? with
  | some tag => return ⟨← anchor?, some tag⟩
  | none =>
    let anchor ← anchor?
    if anchor.isSome then return ⟨anchor, ← tag?⟩ else return ⟨none, none⟩

/-- Names the node that is read next. -/
def named (anchor : Option String) (read : Read Node) : Read Node := do
  match anchor with
  | none => read
  | some name =>
    let serial := (← get).anchors.length
    modify fun r => { r with anchors := Anchor.next r.anchors name :: r.anchors }
    let n ← read
    modify fun r => { r with nodes := (serial, n) :: r.nodes }
    return n

/-- The tag of a scalar; `!` alone asks for nothing. -/
def scalarTag (tag : Option String) : Option String := tag.filter (· ≠ "!")

/-- The end of an entry of a flow collection. -/
def flowEnd (close : Token) : List Token := [.comma, close]

mutual

/-- Reads a node. In block context it may be a block collection, as the value of a key also a
sequence that is not indented. -/
def node (block loose : Bool) : Nat → Read Node
  | 0 => fail
  | fuel + 1 => do
    if let some (.alias name) ← head? then
      advance
      match Anchor.number? (← get).anchors (.ofList name) with
      | some number => return .alias number
      | none => fail
    else
      let p ← properties
      named p.anchor (content block loose p fuel)

/-- Reads a node behind its properties. -/
def content (block loose : Bool) (p : Properties) : Nat → Read Node
  | 0 => fail
  | fuel + 1 => do
    match ← head? with
    | some (.scalar style text) =>
      advance
      return .scalar style (scalarTag p.tag) (.ofList text)
    | some .openSequence =>
      advance
      return .sequence p.tag (← flowItems true fuel)
    | some .openMapping =>
      advance
      return .mapping p.tag (← flowEntries true fuel)
    | t =>
      if loose ∧ t = some .item then return .sequence p.tag (← looseItems fuel)
      else if block ∧ t = some .beginSequence then
        advance
        return .sequence p.tag (← blockItems fuel)
      else if block ∧ t = some .beginMapping then
        advance
        return .mapping p.tag (← blockEntries fuel)
      else if p.anchor.isSome ∨ p.tag.isSome then return .absent p.tag
      else fail

/-- A node, or nothing before one of some tokens. -/
def nodeBefore (stops : List Token) (block loose : Bool) : Nat → Read Node
  | 0 => fail
  | fuel + 1 => do
    if ← next stops then return .absent none else node block loose fuel

/-- The items of an indented sequence. -/
def blockItems : Nat → Read (List Node)
  | 0 => fail
  | fuel + 1 => do
    if ← take .item then
      let n ← nodeBefore [.item, .dedent] true false fuel
      return n :: (← blockItems fuel)
    else if ← take .dedent then return []
    else fail

/-- The items of a sequence that stands at the column of its key. -/
def looseItems : Nat → Read (List Node)
  | 0 => fail
  | fuel + 1 => do
    if ← take .item then
      let n ← nodeBefore [.item, .key, .value, .dedent] true false fuel
      return n :: (← looseItems fuel)
    else return []

def blockEntries : Nat → Read (List (Node × Node))
  | 0 => fail
  | fuel + 1 => do
    if ← take .key then
      let k ← nodeBefore [.key, .value, .dedent] true true fuel
      let v ← if ← take .value then nodeBefore [.key, .value, .dedent] true true fuel
        else pure (.absent none)
      return (k, v) :: (← blockEntries fuel)
    else if ← take .dedent then return []
    else fail

/-- Passes the comma before an entry that is not the first. -/
def flowItems (first : Bool) : Nat → Read (List Node)
  | 0 => fail
  | fuel + 1 => do
    if ← take .closeSequence then return []
    if !first then
      if !(← take .comma) then fail
    if ← take .closeSequence then return []
    let n ← if ← take .key then flowPair fuel else node false false fuel
    return n :: (← flowItems false fuel)

/-- A single pair in a flow sequence. Where its key is missing, a token is passed over. -/
def flowPair : Nat → Read Node
  | 0 => fail
  | fuel + 1 => do
    let stops := flowEnd .closeSequence
    let k ← if ← next (.value :: stops) then
        advance
        pure (.absent none)
      else node false false fuel
    let v ← if ← take .value then nodeBefore stops false false fuel else pure (.absent none)
    return .mapping none [(k, v)]

def flowEntries (first : Bool) : Nat → Read (List (Node × Node))
  | 0 => fail
  | fuel + 1 => do
    if ← take .closeMapping then return []
    if !first then
      if !(← take .comma) then fail
    if ← take .closeMapping then return []
    let stops := flowEnd .closeMapping
    let explicit ← take .key
    let k ← if explicit then nodeBefore (.value :: stops) false false fuel
      else node false false fuel
    let given ← if explicit then take .value else pure false
    let v ← if given then nodeBefore stops false false fuel else pure (.absent none)
    return (k, v) :: (← flowEntries false fuel)

end

/-- The directives before a document: one version at most, which is 1.1 or 1.2, and one meaning for
each handle. -/
def directives : Nat → (versioned : Bool) → Read Unit
  | 0, _ => fail
  | fuel + 1, versioned => do
    match ← head? with
    | some (.version major minor) =>
      if versioned ∨ major ≠ 1 ∨ (minor ≠ 1 ∧ minor ≠ 2) then fail
      advance
      directives fuel true
    | some (.tagHandle handle expansion) =>
      if ((← get).handles.lookup handle).isSome then fail
      modify fun r => { r with handles := (handle, expansion) :: r.handles }
      advance
      directives fuel versioned
    | _ => return

/-- The handles that every document knows, unless it gives them a meaning of its own. -/
def standardHandles : List (List Char × List Char) :=
  [(['!'], ['!']), (['!', '!'], "tag:yaml.org,2002:".toList)]

def isDirective : Token → Bool
  | .version .. | .tagHandle .. => true
  | _ => false

/-- A document; it needs a divider before it only behind directives. -/
def document (fuel : Nat) : Read Node := do
  let opened := ((← head?).map fun t => isDirective t || t == .documentStart).getD false
  directives fuel false
  modify fun r => { r with handles := r.handles ++ standardHandles }
  if opened then
    if !(← take .documentStart) then fail
    match ← head? with
    | none => return .absent none
    | some t =>
      if isDirective t ∨ t = .documentStart ∨ t = .documentEnd then return .absent none
      else node true false fuel
  else node true false fuel

end Read

/-- What a text holds: nothing at all, or one document. -/
inductive Contents where
  | nothing
  | document (d : Document)

/-- A text holds one document at most. -/
def Contents.ofTokens? (tokens : List Token) : Option Contents := do
  if tokens = [] then return .nothing
  let (root, r) ← (Read.document (6 * tokens.length + 6)).run ⟨tokens, [], [], []⟩
  if r.rest.all (· = .documentEnd) then return .document ⟨root, r.anchors, r.nodes⟩ else none

def Contents.read? (text : String) : Option Contents := do
  ofTokens? (← tokens? (← glyphs? text.toList))

end BraceTemplate.Yaml
