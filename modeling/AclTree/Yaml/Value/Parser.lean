/-
From tokens to a document. The functions follow the grammar: a node is an
alias, or properties and content; block and flow collections each have their
own entries. A text holds one document.
-/
import AclTree.Yaml.Token.Lexer
import AclTree.Yaml.Value

namespace AclTree.Yaml

/-- What the parser knows of the tokens before. -/
structure Parser where
  tokens : List Token
  /-- The handles of tags. -/
  handles : List (String × Tag) := []
  /-- The names of anchors and the number each has last been given. -/
  names : List (String × Nat) := []
  /-- The node that each number stands for, the latest first; nodes are told apart by the order in
  which they start. -/
  numbers : List (Nat × Nat) := []
  /-- The nodes with anchors that are complete. -/
  nodes : List (Nat × Value) := []

/-- The error says what was wanted. -/
abbrev Parse (α : Type) := StateT Parser (Except Error) α

namespace Parser

def peek : Parse (Option Token) := do pure (← get).tokens.head?

def advance : Parse Unit := modify fun p => { p with tokens := p.tokens.tail }

/-- Takes the next token if it is the given one, and tells whether it was. -/
def accept (token : Token) : Parse Bool := do
  if (← peek) = some token then
    advance
    pure true
  else
    pure false

/-- The next token is one of those given. -/
def atAny (tokens : List Token) : Parse Bool := do pure ((← peek).any tokens.contains)

/-! ## Properties -/

/-- The tag that a handle and a suffix make up. -/
def resolveTag (handle : String) (suffix : Tag) : Parse Tag := do
  if handle.isEmpty then
    pure suffix
  else
    match (← get).handles.lookup handle with
    | some stem => pure (stem ++ suffix)
    | none => throw (.unknownHandle handle)

/-- Gives an anchor a number, as many as there are names before it, and notes that its node starts
here. An anchor may be used again; its name stands for the later node from then on. -/
def startAnchor (name : String) : Parse Nat := do
  let p ← get
  let number := p.names.length
  let order := p.numbers.length
  let names := p.names.filter (·.1 != name) ++ [(name, number)]
  set { p with names, numbers := (number, order) :: p.numbers }
  pure order

def finishAnchor (order : Option Nat) (v : Value) : Parse Unit :=
  match order with
  | some order => modify fun p => { p with nodes := (order, v) :: p.nodes }
  | none => pure ()

def readAlias (name : String) : Parse Value := do
  match (← get).names.lookup name with
  | some number => pure (.reference number)
  | none => throw (.unknownAnchor name)

/-- An anchor and a tag, in either order, each of them optional. -/
def readProperties : Parse (Option Nat × Option Tag) := do
  match ← peek with
  | some (.anchor name) =>
    advance
    match ← peek with
    | some (.tag handle suffix) =>
      advance
      let tag ← resolveTag handle suffix
      pure (some (← startAnchor name), some tag)
    | _ => pure (some (← startAnchor name), none)
  | some (.tag handle suffix) =>
    advance
    match ← peek with
    | some (.anchor name) =>
      advance
      let tag ← resolveTag handle suffix
      pure (some (← startAnchor name), some tag)
    | _ => pure (none, some (← resolveTag handle suffix))
  | _ => pure (none, none)

/-! ## Nodes -/

/-- Where a node stands. -/
inductive Place where
  | block
  /-- In a block mapping, where a sequence needs no indentation. -/
  | inMapping
  | flow
  deriving DecidableEq

/-- A part of a flow sequence, as the token before it tells. -/
inductive Item where
  | first
  | later
  deriving DecidableEq

mutual

/-- A node. Of any four steps in a row one takes a token, so a limit of four times the number of
tokens is not reached. -/
def readNode (place : Place) : Nat → Parse Value
  | 0 => throw (.expected "node")
  | limit + 1 => do
    match ← peek with
    | some (.reference name) =>
      advance
      readAlias name
    | _ =>
      let (order, tag) ← readProperties
      let v ← readContent place (order.isSome || tag.isSome) tag limit
      finishAnchor order v
      pure v

/-- The content of a node, which may be missing if the node has properties. The tag `!` says no more
of a scalar than no tag does. -/
def readContent (place : Place) (optional : Bool) (tag : Option Tag) : Nat → Parse Value
  | 0 => throw (.expected "node")
  | limit + 1 => do
    match ← peek, place with
    | some .dash, .inMapping => (readDashes limit).map .sequence
    | some (.scalar style text), _ =>
      advance
      pure (.scalar style (tag.filter (· ≠ Tag.ofString "!")) text)
    | some .openSequence, _ =>
      advance
      (readFlowItems .first limit).map .sequence
    | some .openMapping, _ =>
      advance
      (readFlowPairs .first limit).map .mapping
    | some .blockSequence, .block | some .blockSequence, .inMapping =>
      advance
      (readItems limit).map .sequence
    | some .blockMapping, .block | some .blockMapping, .inMapping =>
      advance
      (readPairs limit).map .mapping
    | _, _ => if optional then pure (.scalar .plain tag "") else throw (.expected "node content")

/-- A node, or nothing if one of the tokens comes that follow it. -/
def readOptional (place : Place) (followers : List Token) : Nat → Parse Value
  | 0 => throw (.expected "node")
  | limit + 1 => do
    if ← atAny followers then pure .empty else readNode place limit

/-- The items of a block sequence. -/
def readItems : Nat → Parse (List Value)
  | 0 => throw (.expected "'-' indicator")
  | limit + 1 => do
    if ← accept .dash then
      let v ← readOptional .block [.dash, .blockEnd] limit
      let rest ← readItems limit
      pure (v :: rest)
    else if ← accept .blockEnd then
      pure []
    else
      throw (.expected "'-' indicator")

/-- The items of a sequence that is not indented in its mapping. -/
def readDashes : Nat → Parse (List Value)
  | 0 => throw (.expected "'-' indicator")
  | limit + 1 => do
    if ← accept .dash then
      let v ← readOptional .block [.dash, .key, .value, .blockEnd] limit
      let rest ← readDashes limit
      pure (v :: rest)
    else
      pure []

/-- The pairs of a block mapping. -/
def readPairs : Nat → Parse (List (Value × Value))
  | 0 => throw (.expected "key")
  | limit + 1 => do
    if ← accept .key then
      let k ← readOptional .inMapping [.key, .value, .blockEnd] limit
      let v ←
        if ← accept .value then
          readOptional .inMapping [.key, .value, .blockEnd] limit
        else
          pure .empty
      let rest ← readPairs limit
      pure ((k, v) :: rest)
    else if ← accept .blockEnd then
      pure []
    else
      throw (.expected "key")

/-- The items of a flow sequence. A pair in it is a mapping of its own. -/
def readFlowItems (item : Item) : Nat → Parse (List Value)
  | 0 => throw (.expected "',' or ']'")
  | limit + 1 => do
    if ← accept .closeSequence then
      pure []
    else if item = .later && !(← accept .comma) then
      throw (.expected "',' or ']'")
    else if ← accept .closeSequence then
      pure []
    else
      let v ← if ← accept .key then readFlowPair limit else readNode .flow limit
      let rest ← readFlowItems .later limit
      pure (v :: rest)

/-- A pair in a flow sequence, after its `?`. If its key is empty, the token after that is passed
over. -/
def readFlowPair : Nat → Parse Value
  | 0 => throw (.expected "node")
  | limit + 1 => do
    let k ←
      if ← atAny [.value, .comma, .closeSequence] then
        advance
        pure .empty
      else
        readNode .flow limit
    let v ←
      if ← accept .value then
        readOptional .flow [.comma, .closeSequence] limit
      else
        pure .empty
    pure (.mapping [(k, v)])

/-- The pairs of a flow mapping. A node without `?` or colon is a key without value. -/
def readFlowPairs (item : Item) : Nat → Parse (List (Value × Value))
  | 0 => throw (.expected "',' or '\x7d'")
  | limit + 1 => do
    if ← accept .closeMapping then
      pure []
    else if item = .later && !(← accept .comma) then
      throw (.expected "',' or '\x7d'")
    else if ← accept .closeMapping then
      pure []
    else if ← accept .key then
      let k ← readOptional .flow [.value, .comma, .closeMapping] limit
      let v ←
        if ← accept .value then
          readOptional .flow [.comma, .closeMapping] limit
        else
          pure .empty
      let rest ← readFlowPairs .later limit
      pure ((k, v) :: rest)
    else
      let k ← readNode .flow limit
      let rest ← readFlowPairs .later limit
      pure ((k, .empty) :: rest)

end

/-! ## Documents -/

/-- The handles that need no directive. -/
def standardHandles : List (String × Tag) :=
  [("!", Tag.ofString "!"), ("!!", Tag.ofString "tag:yaml.org,2002:")]

/-- The directives before a document: at most one version, 1.1 or 1.2, and one meaning for each
handle. Gives the handles. -/
def readDirectives (versioned : Bool) (handles : List (String × Tag)) :
    List Token → Except Error (List (String × Tag) × List Token)
  | .version major minor :: rest =>
    if versioned || major ≠ 1 || (minor ≠ 1 && minor ≠ 2) then
      .error .badDirective
    else
      readDirectives true handles rest
  | .handle name stem :: rest =>
    if (handles.lookup name).isSome then
      .error .badDirective
    else
      readDirectives versioned ((name, stem) :: handles) rest
  | rest => .ok (handles, rest)

/-- A document, which may be empty before the given tokens. Nothing but end markers follows it. -/
def readDocument (followers : List Token) (p : Parser) : Except Error Document := do
  let limit := 4 * p.tokens.length + 4
  let (content, p) ← (readOptional .block followers limit).run p
  let anchored := p.numbers.filterMap fun (number, order) =>
    (p.nodes.lookup order).map (number, ·)
  if p.tokens.all (· == .documentEnd) then
    pure ⟨content, anchored⟩
  else
    throw .severalDocuments

/-- The document that the tokens make up. One that starts without a marker starts with content. -/
def run (tokens : List Token) : Except Error Document := do
  match ← readDirectives false [] tokens with
  | (_, []) =>
    if tokens.isEmpty then pure ⟨.empty, []⟩ else throw (.expected "<document start>")
  | (handles, .documentStart :: rest) =>
    if rest.isEmpty then
      pure ⟨.empty, []⟩
    else
      readDocument [.documentEnd] { tokens := rest, handles := handles ++ standardHandles }
  | (_, rest) =>
    if rest.length = tokens.length then
      readDocument [] { tokens, handles := standardHandles }
    else
      throw (.expected "<document start>")

end Parser

/-- The document that a text holds; a text of comments alone holds an empty one. -/
def Document.ofText (text : String) : Except Error Document := do
  Parser.run (← Token.ofText text)

end AclTree.Yaml
