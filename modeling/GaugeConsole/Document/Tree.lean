import GaugeConsole.Document.Node
import GaugeConsole.Document.Token

/-!
# From tokens to nodes

Tokens are read as one document. A node may carry an anchor, and an alias stands for the node of
its anchor; a tag says how the node under it is meant.
-/

namespace GaugeConsole.Document

inductive Typing where
  | unstated
  /-- The lone exclamation mark: a scalar is read as if it were plain. -/
  | asPlain
  | named (kind : Kind)
deriving DecidableEq, Repr

namespace Typing

def ofName (name : String) : Typing := if name = "!" then asPlain else named (.ofName name)

def scalar (typing : Typing) (text : String) (plain : Bool) : Kind :=
  match typing with
  | unstated => if plain then .ofPlain text else .text
  | asPlain => .ofPlain text
  | named kind => kind

/-- The kind of a collection, given what it is unless a tag says otherwise. -/
def collection (typing : Typing) (usual : Kind) : Kind :=
  match typing with
  | named kind => kind
  | _ => usual

end Typing

structure Tree where
  tokens : List Token
  anchors : List (String × Node) := []
  /-- What the handles of tags stand for. -/
  handles : List (String × String)

abbrev TreeReader := StateT Tree (Except Malformed)

namespace TreeReader

def fail {α : Type} (e : Malformed) : TreeReader α := throw e

def peek? : TreeReader (Option Token) := return (← get).tokens.head?

def advance : TreeReader Unit := modify fun t => { t with tokens := t.tokens.tail }

/-- Whether the next token is one of some. The end of the text is none of them. -/
def at? (ts : List Token) : TreeReader Bool := return (← peek?).any (· ∈ ts)

/-- Takes up the next token if it is the given one. -/
def take? (t : Token) : TreeReader Bool := do
  if ← at? [t] then
    advance
    return true
  else return false

def anchor? : TreeReader (Option String) := do
  match ← peek? with
  | some (.anchor name) =>
    advance
    return some name
  | _ => return none

def nameOf (t : Tag) : TreeReader String := do
  match t.handle with
  | none => return t.rest
  | some h =>
    match (← get).handles.lookup h with
    | some stem => return stem ++ t.rest
    | none => fail .tag

def typing? : TreeReader (Option Typing) := do
  match ← peek? with
  | some (.tag t) =>
    advance
    return some (.ofName (← nameOf t))
  | _ => return none

/-- An anchor and a tag, in either order. -/
def properties : TreeReader (Option String × Option Typing) := do
  match ← anchor? with
  | some name => return (some name, ← typing?)
  | none =>
    match ← typing? with
    | some typing => return (← anchor?, some typing)
    | none => return (none, none)

def define (name : Option String) (n : Node) : TreeReader Unit :=
  modify fun t => { t with anchors := name.toList.map (·, n) ++ t.anchors }

def referenceTo (name : String) : TreeReader Node := do
  match (← get).anchors.lookup name with
  | some n => return n
  | none => fail .reference

/-- A scalar that is left out. -/
def nothing : Node := .scalar .null ""

/-- An anchored collection. While it is being read, its anchor stands for an empty one. An alias
inside of it means the collection itself, which a tree cannot hold: it is read as the empty one. -/
def anchored (name : Option String) (empty : Node) (read : TreeReader Node) : TreeReader Node := do
  define name empty
  let n ← read
  define name n
  return n

mutual

/-- Reads a node with its anchor and tag. In a block, block collections may follow, and after a
key also entries that are not indented. -/
def node (block unindented : Bool) : Nat → TreeReader Node
  | 0 => fail .content
  | n + 1 => do
    if let some (.reference name) ← peek? then
      advance
      return ← referenceTo name
    let (name, typing) ← properties
    if let some name := name then
      if ((← get).anchors.lookup name).isSome then fail .reference
    let stated := typing.getD .unstated
    let scalar := fun (text : String) (plain : Bool) => do
      let n := Node.scalar (stated.scalar text plain) text
      define name n
      return n
    let list := fun (read : TreeReader (List Node)) =>
      let kind := stated.collection .list
      anchored name (.list kind []) do return .list kind (← read)
    let mapping := fun (read : TreeReader (List (Node × Node))) =>
      let kind := stated.collection .mapping
      anchored name (.mapping kind []) do return .mapping kind (← read)
    match ← peek? with
    | some (.scalar text plain) => advance; scalar text plain
    | some .openBracket => advance; list (flowItems n true)
    | some .openBrace => advance; mapping (flowEntries n true)
    | some .blockList => if block then advance; list (blockItems n) else fail .content
    | some .blockMapping => if block then advance; mapping (blockEntries n) else fail .content
    | t =>
      if unindented && t = some .entry then list (entries n)
      else if name.isSome || typing.isSome then scalar "" true
      else fail .content

/-- Reads a node unless one of some tokens, which end it, is ahead. -/
def nodeUnless (ends : List Token) (block unindented : Bool) : Nat → TreeReader Node
  | 0 => fail .content
  | n + 1 => do if ← at? ends then return nothing else node block unindented n

def blockItems : Nat → TreeReader (List Node)
  | 0 => fail .content
  | n + 1 => do
    if ← take? .entry then
      let item ← nodeUnless [.entry, .blockEnd] true false n
      return item :: (← blockItems n)
    else if ← take? .blockEnd then return []
    else fail .content

/-- The items of a list that is not indented. -/
def entries : Nat → TreeReader (List Node)
  | 0 => fail .content
  | n + 1 => do
    if ← take? .entry then
      let item ← nodeUnless [.entry, .key, .value, .blockEnd] true false n
      return item :: (← entries n)
    else return []

def blockEntries : Nat → TreeReader (List (Node × Node))
  | 0 => fail .content
  | n + 1 => do
    if ← take? .key then
      let key ← nodeUnless [.key, .value, .blockEnd] true true n
      let v ← if ← take? .value then nodeUnless [.key, .value, .blockEnd] true true n
        else pure nothing
      return (key, v) :: (← blockEntries n)
    else if ← take? .blockEnd then return []
    else fail .content

/-- The items of a list in brackets. A key makes an item a mapping of one entry. -/
def flowItems : Nat → Bool → TreeReader (List Node)
  | 0, _ => fail .content
  | n + 1, first => do
    if ← take? .closeBracket then return []
    if !first then
      if !(← take? .comma) then fail .content
      if ← take? .closeBracket then return []
    let item ← if ← take? .key then
        let key ← nodeUnless [.value, .comma, .closeBracket] false false n
        let v ← if ← take? .value then nodeUnless [.comma, .closeBracket] false false n
          else pure nothing
        pure (Node.mapping .mapping [(key, v)])
      else node false false n
    return item :: (← flowItems n false)

/-- The entries of a mapping in braces. -/
def flowEntries : Nat → Bool → TreeReader (List (Node × Node))
  | 0, _ => fail .content
  | n + 1, first => do
    if ← take? .closeBrace then return []
    if !first then
      if !(← take? .comma) then fail .content
      if ← take? .closeBrace then return []
    let entry ← if ← take? .key then
        let key ← nodeUnless [.value, .comma, .closeBrace] false false n
        let v ← if ← take? .value then nodeUnless [.comma, .closeBrace] false false n
          else pure nothing
        pure (key, v)
      else
        let key ← node false false n
        pure (key, nothing)
    return entry :: (← flowEntries n false)

end

/-- Reads the directives before a document: one version at most, which has to be the first major
one, and handles for tags, each of them once. -/
def directives : Bool → List (String × String) → List Token →
    Except Malformed (List (String × String) × List Token)
  | versioned, handles, .directive (.version major) :: ts =>
    if versioned || major ≠ 1 then .error .directive else directives true handles ts
  | versioned, handles, .directive (.handle h stem) :: ts =>
    if (handles.lookup h).isSome then .error .directive
    else directives versioned ((h, stem) :: handles) ts
  | versioned, handles, .directive .other :: ts => directives versioned handles ts
  | _, handles, ts => .ok (handles, ts)

def commonHandles : List (String × String) := [("!", "!"), ("!!", Kind.common)]

/-- Reads the tokens of one document. Without any there is nothing. -/
def document (tokens : List Token) : Except Malformed Node := do
  let explicit := match tokens with
    | .directive _ :: _ | .documentStart :: _ => true
    | _ => false
  let (handles, ts) ← directives false [] tokens
  let ts ← match explicit, ts with
    | true, .documentStart :: ts => pure ts
    | true, _ => throw .directive
    | false, ts => pure ts
  let empty := match explicit, ts with
    | _, [] => true
    | true, .directive _ :: _ | true, .documentStart :: _ | true, .documentEnd :: _ => true
    | _, _ => false
  let (n, t) ←
    if empty then pure (nothing, { tokens := ts, handles := [] })
    else
      (node true false (4 * ts.length + 4)).run
        { tokens := ts, handles := handles ++ commonHandles }
  match t.tokens.dropWhile (· = .documentEnd) with
  | [] => return n
  | _ => throw .secondDocument

end TreeReader

def read (text : String) : Except Fault Value := do
  let n ← (Token.ofText text >>= TreeReader.document).mapError Fault.malformed
  n.read

end GaugeConsole.Document
