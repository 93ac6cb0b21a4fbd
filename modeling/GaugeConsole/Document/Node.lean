import GaugeConsole.Document.Meaning

/-!
# Nodes

The parts of a document as they are written, before the text of a scalar is taken for a value. A
node gets its value collection by collection, those of one level before those below it, so that
among several faults the one on the highest level counts, and the first one there.
-/

namespace GaugeConsole.Document

inductive Node where
  | scalar (kind : Kind) (text : String)
  | list (kind : Kind) (items : List Node)
  | mapping (kind : Kind) (entries : List (Node × Node))

/-- A fault and how many collections are around it. -/
structure Finding where
  level : Nat
  fault : Fault
deriving DecidableEq, Repr

abbrev Built (α : Type) := Except Finding α

namespace Built

def of {α : Type} (level : Nat) (a : Except Fault α) : Built α := a.mapError (⟨level, ·⟩)

def malformed {α : Type} (level : Nat) (cause : Malformed) : Built α :=
  .error ⟨level, .malformed cause⟩

/-- Two things built one after the other. A finding of the second counts only if it is on a higher
level. -/
def both {α β γ : Type} (f : α → β → γ) : Built α → Built β → Built γ
  | .ok a, .ok b => .ok (f a b)
  | .error x, .ok _ => .error x
  | .ok _, .error y => .error y
  | .error x, .error y => .error (if y.level < x.level then y else x)

end Built

structure Content where
  /-- Whether all that is to be included can be. -/
  inclusion : Built Unit := .ok ()
  included : Built (List (Value × Value)) := .ok []
  own : Built (List (Value × Value)) := .ok []

namespace Content

/-- The entries that are included come before the others. -/
def entries (c : Content) : Built (List (Value × Value)) :=
  .both (fun _ es => es) c.inclusion (.both (· ++ ·) c.included c.own)

end Content

namespace Node

def kind : Node → Kind
  | scalar kind _ => kind
  | list kind _ => kind
  | mapping kind _ => kind

mutual

/-- The text of a scalar, or of the scalar that stands for the value of a mapping. -/
def text : Node → Except Fault String
  | scalar _ text => .ok text
  | list .. => .error (.malformed .content)
  | mapping _ entries => defaultText entries

def defaultText : List (Node × Node) → Except Fault String
  | [] => .error (.malformed .content)
  | (k, v) :: rest => if k.kind = .default then text v else defaultText rest

end

mutual

/-- The value of a node with so many collections around it. -/
def value (level : Nat) : Node → Built Value
  | scalar kind text =>
    if kind.isCollection then .malformed (level + 1) .content else .of level (kind.read text)
  | list kind items =>
    match kind with
    | .list => (values (level + 1) items).map .list
    | .pairs => (pairs (level + 1) items).map .list
    | .set | .mapping => .malformed (level + 1) .content
    | .merge | .default | .unknown => .malformed level .tag
    | _ => .malformed level .content
  | mapping kind entries =>
    match kind with
    | .mapping => (content (level + 1) entries).entries.map .mapping
    | .set => (content (level + 1) entries).entries.map fun es => .set (es.map Prod.fst)
    | .list | .pairs => .malformed (level + 1) .content
    | _ => .of level do
      let text ← defaultText entries
      if kind = .date then throw (.meaningless .datedMapping)
      kind.read text

def values (level : Nat) : List Node → Built (List Value)
  | [] => .ok []
  | n :: rest => .both List.cons (value level n) (values level rest)

/-- The pairs that mappings of one entry each write. -/
def pairs (level : Nat) : List Node → Built (List Value)
  | [] => .ok []
  | mapping _ [(k, v)] :: rest =>
    .both List.cons (.both (fun k v => .list [k, v]) (value level k) (value level v))
      (pairs level rest)
  | _ :: _ => .malformed level .content

/-- The entries of a mapping. A key has to be a single value; one that stands for the value of the
mapping is a text here. -/
def content (level : Nat) : List (Node × Node) → Content
  | [] => {}
  | (k, v) :: rest =>
    let more := content level rest
    if k.kind = .merge then
      let (inclusion, included) := included level v
      { more with
        inclusion := .both (fun _ _ => ()) inclusion more.inclusion
        included := .both (· ++ ·) included more.included }
    else
      let key :=
        if k.kind = .default then (Built.of level (text k)).map .text
        else if k.kind.isCollection then Built.malformed level .content
        else value level k
      { more with
        own := .both List.cons (.both Prod.mk key (value level v)) more.own }

/-- The entries that a mapping includes from a node: those of a mapping, or of several of them, of
which the first one counts most. -/
def included (level : Nat) : Node → Built Unit × Built (List (Value × Value))
  | mapping _ entries =>
    let c := content level entries
    (c.inclusion, .both (· ++ ·) c.included c.own)
  | list _ items => includedEach level items
  | scalar .. => (.malformed level .content, .ok [])

def includedEach (level : Nat) : List Node → Built Unit × Built (List (Value × Value))
  | [] => (.ok (), .ok [])
  | mapping _ entries :: rest =>
    let c := content level entries
    let more := includedEach level rest
    (.both (fun _ _ => ()) c.inclusion more.1,
      .both (· ++ ·) more.2 (.both (· ++ ·) c.included c.own))
  | _ :: _ => (.malformed level .content, .ok [])

end

def read (n : Node) : Except Fault Value := (n.value 0).mapError Finding.fault

end Node

end GaugeConsole.Document
