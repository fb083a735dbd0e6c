import Runbook.Yaml.Token

/-!
# Nodes of YAML

What a document consists of before texts are taken for numbers and the like: texts, lists, records
and references, with their tags and with numbers for the nodes that have a name.

`Node.parts` counts the marks a node is made of, and `Node.named` lists the nodes with a number.
-/

namespace Runbook.Yaml

/-- What stands before a node: the number under which it is referred to, and its tag. -/
structure Label where
  /-- The number of its name. -/
  anchor : Option Nat
  /-- Its tag, with its handle replaced. -/
  tag : Option (List Char)
  deriving DecidableEq, Repr

/-- A node. -/
inductive Node where
  /-- A text, and whether it is written plainly. -/
  | scalar (label : Label) (text : List Char) (plain : Bool)
  /-- A list. -/
  | list (label : Label) (items : List Node)
  /-- A record. -/
  | record (label : Label) (fields : List (Node × Node))
  /-- A reference to the node of a number. -/
  | reference (target : Nat)
  deriving Repr, Inhabited

namespace Node

mutual

/-- The number of texts and references, and two for each list or record. -/
def parts : Node → Nat
  | scalar _ _ _ => 1
  | reference _ => 1
  | list _ items => 2 + partsOfItems items
  | record _ fields => 2 + partsOfFields fields
termination_by structural n => n

/-- The parts of several nodes. -/
def partsOfItems : List Node → Nat
  | [] => 0
  | n :: ns => parts n + partsOfItems ns
termination_by structural ns => ns

/-- The parts of several fields. -/
def partsOfFields : List (Node × Node) → Nat
  | [] => 0
  | (k, v) :: fs => parts k + parts v + partsOfFields fs
termination_by structural fs => fs

end

mutual

/-- The nodes with a number, in the order in which they start. -/
def named : Node → List (Nat × Node)
  | scalar l t p => (l.anchor.map fun a => (a, scalar l t p)).toList
  | reference _ => []
  | list l items => (l.anchor.map fun a => (a, list l items)).toList ++ namedItems items
  | record l fields => (l.anchor.map fun a => (a, record l fields)).toList ++ namedFields fields
termination_by structural n => n

/-- The nodes with a number in several nodes. -/
def namedItems : List Node → List (Nat × Node)
  | [] => []
  | n :: ns => named n ++ namedItems ns
termination_by structural ns => ns

/-- The nodes with a number in several fields. -/
def namedFields : List (Node × Node) → List (Nat × Node)
  | [] => []
  | (k, v) :: fs => named k ++ named v ++ namedFields fs
termination_by structural fs => fs

end

/-- The nodes that references of a document lead to.  Of several with one number the last one
counts. -/
def targets (n : Node) : List (Nat × Node) := n.named.reverse

end Node
end Runbook.Yaml
