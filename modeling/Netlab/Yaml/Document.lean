import Netlab.Yaml.Node
import Netlab.Yaml.Tag

/-!
# From tokens to a document

A text holds one document or none; none counts as an empty one.
-/

namespace Netlab.Yaml

/-- the tokens that are left and what has been learnt from those before -/
structure Reader where
  tokens : List Token
  /-- tag handles and what they stand for -/
  handles : List (String × String) := []
  anchors : Anchors := {}

/-- anchor and tag in front of a node -/
structure Properties where
  anchor : Option String := none
  tag : Option String := none

namespace Reader

def goTo (r : Reader) (tokens : List Token) : Reader := { r with tokens }

/-! ## properties -/

def resolveTag (r : Reader) (t : Tag) : Except Fault String :=
  if t.handle = "" then .ok t.suffix
  else
    match r.handles.lookup t.handle with
    | some lead => .ok (lead ++ t.suffix)
    | none => .error .unknownTagHandle

/-- an anchor and a tag in either order, each at most once -/
def readProperties (r : Reader) : Except Fault (Properties × Reader) :=
  match r.tokens with
  | .anchor a :: .tag t :: ts => do return (⟨some a, some (← r.resolveTag t)⟩, r.goTo ts)
  | .tag t :: .anchor a :: ts => do return (⟨some a, some (← r.resolveTag t)⟩, r.goTo ts)
  | .anchor a :: ts => .ok (⟨some a, none⟩, r.goTo ts)
  | .tag t :: ts => do return (⟨none, some (← r.resolveTag t)⟩, r.goTo ts)
  | _ => .ok ({}, r)

/-- the anchor in front of a node is known inside the node already -/
def meet (r : Reader) (p : Properties) : Reader :=
  match p.anchor with
  | none => r
  | some name => { r with anchors := r.anchors.meet name }

/-- give the anchor that `before` met its node -/
def name (r before : Reader) (p : Properties) (n : Node) : Reader :=
  match p.anchor.bind before.anchors.slot? with
  | none => r
  | some slot =>
    let nodes := (slot, before.anchors.met, n) :: r.anchors.nodes
    { r with anchors := { r.anchors with nodes } }

/-! ## nodes -/

/-- whether the next token is one of those -/
def atAny (r : Reader) (ts : List Token) : Bool := r.tokens.head?.any (ts.contains ·)

mutual

/-- a node; in a block it may be a block collection, and below a key a list without indentation -/
def readNode (fuel : Nat) (block indentless : Bool) (r : Reader) : Except Fault (Node × Reader) :=
  match fuel with
  | 0 => .error .missingNode
  | fuel + 1 =>
    match r.tokens with
    | .alias name :: ts =>
      match r.anchors.slot? name with
      | some slot => .ok (.alias slot, r.goTo ts)
      | none => .error .unknownAnchor
    | _ => do
      let (p, r) ← r.readProperties
      let start := r.meet p
      let (n, r) ←
        match start.tokens with
        | .scalar plain text :: ts => .ok (.scalar p.tag plain text, start.goTo ts)
        | .openFlowList :: ts => do
          let (items, r) ← readFlowItems fuel true (start.goTo ts)
          pure (.list items, r)
        | .openFlowMap :: ts => do
          let (entries, r) ← readFlowEntries fuel true (start.goTo ts)
          pure (.map entries, r)
        | t :: ts =>
          if indentless && t = .entry then do
            let (items, r) ← readIndentlessItems fuel start
            pure (.list items, r)
          else if block && t = .openBlockList then do
            let (items, r) ← readBlockItems fuel (start.goTo ts)
            pure (.list items, r)
          else if block && t = .openBlockMap then do
            let (entries, r) ← readBlockEntries fuel (start.goTo ts)
            pure (.map entries, r)
          else if p.anchor.isSome || p.tag.isSome then pure (.scalar p.tag true "", start)
          else throw .missingNode
        | [] =>
          if p.anchor.isSome || p.tag.isSome then pure (.scalar p.tag true "", start)
          else throw .missingNode
      return (n, r.name start p n)

/-- a node, or nothing in front of one of the tokens -/
def readOptional (fuel : Nat) (block indentless : Bool) (absent : List Token) (r : Reader) :
    Except Fault (Node × Reader) :=
  match fuel with
  | 0 => .error .missingNode
  | fuel + 1 => if r.atAny absent then .ok (.empty, r) else readNode fuel block indentless r

def readBlockItems (fuel : Nat) (r : Reader) : Except Fault (List Node × Reader) :=
  match fuel with
  | 0 => .error .unclosedBlock
  | fuel + 1 =>
    match r.tokens with
    | .closeBlock :: ts => .ok ([], r.goTo ts)
    | .entry :: ts => do
      let (item, r) ← readOptional fuel true false [.entry, .closeBlock] (r.goTo ts)
      let (items, r) ← readBlockItems fuel r
      return (item :: items, r)
    | _ => .error .unclosedBlock

def readIndentlessItems (fuel : Nat) (r : Reader) : Except Fault (List Node × Reader) :=
  match fuel with
  | 0 => .error .unclosedBlock
  | fuel + 1 =>
    match r.tokens with
    | .entry :: ts => do
      let (item, r) ← readOptional fuel true false [.entry, .key, .value, .closeBlock] (r.goTo ts)
      let (items, r) ← readIndentlessItems fuel r
      return (item :: items, r)
    | _ => .ok ([], r)

def readBlockEntries (fuel : Nat) (r : Reader) : Except Fault (List (Node × Node) × Reader) :=
  match fuel with
  | 0 => .error .unclosedBlock
  | fuel + 1 =>
    match r.tokens with
    | .closeBlock :: ts => .ok ([], r.goTo ts)
    | .key :: ts => do
      let (key, r) ← readOptional fuel true true [.key, .value, .closeBlock] (r.goTo ts)
      let (value, r) ←
        match r.tokens with
        | .value :: ts => readOptional fuel true true [.key, .value, .closeBlock] (r.goTo ts)
        | _ => .ok (.empty, r)
      let (entries, r) ← readBlockEntries fuel r
      return ((key, value) :: entries, r)
    | _ => .error .unclosedBlock

/-- the items inside square brackets, up to the closing one; an entry of two parts is a map -/
def readFlowItems (fuel : Nat) (first : Bool) (r : Reader) : Except Fault (List Node × Reader) :=
  match fuel with
  | 0 => .error .unclosedFlow
  | fuel + 1 =>
    match r.tokens with
    | .closeFlowList :: ts => .ok ([], r.goTo ts)
    | ts => do
      let r ← if first then pure r
        else match ts with
          | .separator :: ts => pure (r.goTo ts)
          | _ => throw .unclosedFlow
      match r.tokens with
      | .closeFlowList :: ts => return ([], r.goTo ts)
      | .key :: ts =>
        let (pair, r) ← readPair fuel (r.goTo ts)
        let (items, r) ← readFlowItems fuel false r
        return (.map [pair] :: items, r)
      | _ =>
        let (item, r) ← readNode fuel false false r
        let (items, r) ← readFlowItems fuel false r
        return (item :: items, r)

/-- An entry of two parts inside square brackets.  Where its key is missing the token that shows
this is dropped, so its value is missing too. -/
def readPair (fuel : Nat) (r : Reader) : Except Fault ((Node × Node) × Reader) :=
  match fuel with
  | 0 => .error .missingNode
  | fuel + 1 => do
    let (key, r) ←
      if r.atAny [.value, .separator, .closeFlowList] then pure (.empty, r.goTo r.tokens.tail)
      else readNode fuel false false r
    match r.tokens with
    | .value :: ts =>
      let (value, r) ← readOptional fuel false false [.separator, .closeFlowList] (r.goTo ts)
      return ((key, value), r)
    | _ => return ((key, .empty), r)

/-- the entries inside curly brackets, up to the closing one -/
def readFlowEntries (fuel : Nat) (first : Bool) (r : Reader) :
    Except Fault (List (Node × Node) × Reader) :=
  match fuel with
  | 0 => .error .unclosedFlow
  | fuel + 1 =>
    match r.tokens with
    | .closeFlowMap :: ts => .ok ([], r.goTo ts)
    | ts => do
      let r ← if first then pure r
        else match ts with
          | .separator :: ts => pure (r.goTo ts)
          | _ => throw .unclosedFlow
      match r.tokens with
      | .closeFlowMap :: ts => return ([], r.goTo ts)
      | .key :: ts =>
        let (key, r) ← readOptional fuel false false [.value, .separator, .closeFlowMap] (r.goTo ts)
        let (value, r) ←
          match r.tokens with
          | .value :: ts => readOptional fuel false false [.separator, .closeFlowMap] (r.goTo ts)
          | _ => .ok (.empty, r)
        let (entries, r) ← readFlowEntries fuel false r
        return ((key, value) :: entries, r)
      | _ =>
        let (key, r) ← readNode fuel false false r
        let (entries, r) ← readFlowEntries fuel false r
        return ((key, .empty) :: entries, r)

end

/-- enough steps for a node: at most three a token -/
def steps (r : Reader) : Nat := 3 * r.tokens.length + 3

end Reader

/-! ## documents -/

/-- the handles that are known without a directive -/
def defaultHandles : List (String × String) := [("!", "!"), ("!!", "tag:yaml.org,2002:")]

/-- the handles that directives define; a handle may be given once, and a version -/
def handlesOf (versioned : Bool) (handles : List (String × String)) :
    List Directive → Except Fault (List (String × String))
  | [] => .ok (handles ++ defaultHandles)
  | .version major minor :: ds =>
    if versioned then .error .repeatedDirective
    else if major = 1 ∧ (minor = 1 ∨ minor = 2) then handlesOf true handles ds
    else .error .unsupportedVersion
  | .tag handle lead :: ds =>
    if handles.any (·.1 = handle) then .error .repeatedDirective
    else handlesOf versioned (handles ++ [(handle, lead)]) ds

/-- the directives in front of a document and the tokens behind them -/
def splitDirectives : List Token → List Directive × List Token
  | .directive d :: ts =>
    let (ds, ts) := splitDirectives ts
    (d :: ds, ts)
  | ts => ([], ts)

/-- whether a token belongs to what comes behind a document -/
def Token.endsDocument : Token → Bool
  | directive _ => true
  | documentStart => true
  | documentEnd => true
  | _ => false

def Reader.readRoot (r : Reader) : Except Fault (Node × Reader) := r.readNode r.steps true false

/-- the document that the tokens of a text stand for -/
def Document.ofTokens (ts : List Token) : Except Fault Document :=
  if ts.isEmpty then .ok {}
  else do
    let (directives, ts) := splitDirectives ts
    let handles ← handlesOf false [] directives
    let (root, r) ←
      match ts with
      | .documentStart :: ts =>
        if ts.head?.all Token.endsDocument then pure (.empty, { tokens := ts })
        else Reader.readRoot { tokens := ts, handles }
      | ts =>
        if directives.isEmpty then Reader.readRoot { tokens := ts, handles }
        else throw .missingDocumentStart
    if (r.tokens.dropWhile (· = .documentEnd)).isEmpty then return { root, anchors := r.anchors }
    else throw .moreDocuments

end Netlab.Yaml
