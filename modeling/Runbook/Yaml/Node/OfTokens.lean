import Runbook.Yaml.Node
import Runbook.Yaml.Token.Reading

/-!
# Nodes from tokens

A document is read from its tokens by recursive descent.  Wherever a key, a value or an item is
missing, an empty plain text stands in its place.

A name is given the number of names that were there before, so a name that is given a second time
has a new number.  The state of reading holds these numbers and the meaning of tag handles.
-/

namespace Runbook.Yaml

/-- The state of reading a document. -/
structure Naming where
  /-- The names with their numbers, every name once. -/
  anchors : List (List Char × Nat)
  /-- The handles of tags with what they stand for. -/
  handles : List (List Char × List Char)

namespace Naming

/-- Gives a name to the next node. -/
def add (s : Naming) (name : List Char) : Nat × Naming :=
  let number := s.anchors.length
  let others := s.anchors.filter fun a => a.1 != name
  (number, { s with anchors := (name, number) :: others })

/-- The tag of a handle and the rest of it.  Without a handle the rest is all of it. -/
def resolve? (s : Naming) (handle rest : List Char) : Option (List Char) :=
  if handle.isEmpty then some rest else (s.handles.lookup handle).map (· ++ rest)

end Naming

namespace Node

/-- The empty text that stands for what is missing. -/
def missing : Node := scalar ⟨none, none⟩ [] true

/-- A node, or several, with the state and the tokens left. -/
abbrev Read (α : Type) := Option (α × Naming × List Token)

/-- The names and tags before a node, in either order, at most one of each. -/
def readLabel (s : Naming) : List Token → Read Label
  | .anchor a :: .tag h r :: ts =>
      let (n, s) := s.add a
      (s.resolve? h r).map fun tag => (⟨some n, some tag⟩, s, ts)
  | .tag h r :: .anchor a :: ts =>
      let (n, s) := s.add a
      (s.resolve? h r).map fun tag => (⟨some n, some tag⟩, s, ts)
  | .anchor a :: ts =>
      let (n, s) := s.add a
      some (⟨some n, none⟩, s, ts)
  | .tag h r :: ts => (s.resolve? h r).map fun tag => (⟨none, some tag⟩, s, ts)
  | ts => some (⟨none, none⟩, s, ts)

/-- The text of a token with its label.  The tag `!` only says that a text is to be taken as it
is written. -/
def ofScalar (l : Label) (text : List Char) (plain : Bool) : Node :=
  scalar (if l.tag = some ['!'] then { l with tag := none } else l) text plain

/-- Where a node may stand. -/
structure Context where
  /-- Blocks may stand here. -/
  block : Bool
  /-- Items may stand here without further indentation. -/
  bareItems : Bool

/-- No value or item follows before one of these tokens. -/
def endsItem : List Token → Bool
  | .item :: _ => true
  | .blockEnd :: _ => true
  | _ => false

/-- No key or value of a block follows before one of these tokens. -/
def endsField : List Token → Bool
  | .key :: _ => true
  | .value :: _ => true
  | .blockEnd :: _ => true
  | _ => false

/-- No key follows before one of these tokens in a flow collection closed by `close`. -/
def endsFlowKey (close : Token) : List Token → Bool
  | .value :: _ => true
  | .comma :: _ => true
  | t :: _ => t == close
  | [] => true

/-- No value follows before one of these tokens in a flow collection closed by `close`. -/
def endsFlowValue (close : Token) : List Token → Bool
  | .comma :: _ => true
  | t :: _ => t == close
  | [] => true

mutual

/-- A node.  Every step takes up a token or leads to one that does. -/
def read (ctx : Context) : (fuel : Nat) → Naming → List Token → Read Node
  | 0, _, _ => none
  | _, s, .reference name :: ts => (s.anchors.lookup name).map fun n => (reference n, s, ts)
  | fuel + 1, s, ts =>
      match readLabel s ts with
      | none => none
      | some (l, s, ts) =>
          match ts with
          | .item :: _ =>
              if ctx.bareItems then
                (readBareItems fuel s ts).map fun p => (list l p.1, p.2)
              else readBody l ts s
          | .scalar text plain :: ts => some (ofScalar l text plain, s, ts)
          | .listStart :: ts => (readFlowItems fuel true s ts).map fun p => (list l p.1, p.2)
          | .recordStart :: ts => (readFlowFields fuel true s ts).map fun p => (record l p.1, p.2)
          | .blockList :: ts' =>
              if ctx.block then (readItems fuel s ts').map fun p => (list l p.1, p.2)
              else readBody l ts s
          | .blockRecord :: ts' =>
              if ctx.block then (readFields fuel s ts').map fun p => (record l p.1, p.2)
              else readBody l ts s
          | ts => readBody l ts s
where
  /-- Nothing stands behind the label. -/
  readBody (l : Label) (ts : List Token) (s : Naming) : Read Node :=
    if l.anchor.isSome || l.tag.isSome then some (scalar l [] true, s, ts) else none

/-- The items of a block. -/
def readItems : (fuel : Nat) → Naming → List Token → Read (List Node)
  | 0, _, _ => none
  | fuel + 1, s, ts =>
      match ts with
      | .blockEnd :: ts => some ([], s, ts)
      | .item :: ts =>
          let found := if endsItem ts then some (missing, s, ts)
            else read ⟨true, false⟩ fuel s ts
          match found with
          | none => none
          | some (n, s, ts) => (readItems fuel s ts).map fun p => (n :: p.1, p.2)
      | _ => none

/-- Items at the indentation of the record around them. -/
def readBareItems : (fuel : Nat) → Naming → List Token → Read (List Node)
  | 0, _, _ => none
  | fuel + 1, s, ts =>
      match ts with
      | .item :: ts =>
          let found := if endsItem ts || endsField ts then some (missing, s, ts)
            else read ⟨true, false⟩ fuel s ts
          match found with
          | none => none
          | some (n, s, ts) => (readBareItems fuel s ts).map fun p => (n :: p.1, p.2)
      | ts => some ([], s, ts)

/-- The fields of a block. -/
def readFields : (fuel : Nat) → Naming → List Token → Read (List (Node × Node))
  | 0, _, _ => none
  | fuel + 1, s, ts =>
      match ts with
      | .blockEnd :: ts => some ([], s, ts)
      | .key :: ts =>
          let key := if endsField ts then some (missing, s, ts) else read ⟨true, true⟩ fuel s ts
          match key with
          | none => none
          | some (k, s, ts) =>
              match readFieldValue fuel s ts with
              | none => none
              | some (v, s, ts) => (readFields fuel s ts).map fun p => ((k, v) :: p.1, p.2)
      | _ => none

/-- The value of a field of a block. -/
def readFieldValue : (fuel : Nat) → Naming → List Token → Read Node
  | 0, _, _ => none
  | fuel + 1, s, ts =>
      match ts with
      | .value :: ts => if endsField ts then some (missing, s, ts) else read ⟨true, true⟩ fuel s ts
      | ts => some (missing, s, ts)

/-- The items of a list in brackets. -/
def readFlowItems : (fuel : Nat) → (first : Bool) → Naming → List Token → Read (List Node)
  | 0, _, _, _ => none
  | fuel + 1, first, s, ts =>
      match ts with
      | .listEnd :: ts => some ([], s, ts)
      | ts =>
          let behind := match ts, first with
            | ts, true => some ts
            | .comma :: ts, false => some ts
            | _, false => none
          match behind with
          | none => none
          | some (.listEnd :: ts) => some ([], s, ts)
          | some ts =>
              match readFlowItem fuel s ts with
              | none => none
              | some (n, s, ts) => (readFlowItems fuel false s ts).map fun p => (n :: p.1, p.2)

/-- An item of a list in brackets, which may be a single field without braces. -/
def readFlowItem : (fuel : Nat) → Naming → List Token → Read Node
  | 0, _, _ => none
  | fuel + 1, s, ts =>
      match ts with
      | .key :: ts =>
          -- without a key the next token is taken for its place
          let key := if endsFlowKey .listEnd ts then some (missing, s, ts.tail)
            else read ⟨false, false⟩ fuel s ts
          match key with
          | none => none
          | some (k, s, ts) =>
              (readFlowValue fuel .listEnd s ts).map fun p =>
                (record ⟨none, none⟩ [(k, p.1)], p.2)
      | ts => read ⟨false, false⟩ fuel s ts

/-- The value of a field within brackets or braces, if one follows. -/
def readFlowValue : (fuel : Nat) → (close : Token) → Naming → List Token → Read Node
  | 0, _, _, _ => none
  | fuel + 1, close, s, ts =>
      match ts with
      | .value :: ts =>
          if endsFlowValue close ts then some (missing, s, ts) else read ⟨false, false⟩ fuel s ts
      | ts => some (missing, s, ts)

/-- The fields of a record in braces. -/
def readFlowFields : (fuel : Nat) → (first : Bool) → Naming → List Token →
    Read (List (Node × Node))
  | 0, _, _, _ => none
  | fuel + 1, first, s, ts =>
      match ts with
      | .recordEnd :: ts => some ([], s, ts)
      | ts =>
          let behind := match ts, first with
            | ts, true => some ts
            | .comma :: ts, false => some ts
            | _, false => none
          match behind with
          | none => none
          | some (.recordEnd :: ts) => some ([], s, ts)
          | some ts =>
              match readFlowField fuel s ts with
              | none => none
              | some (f, s, ts) => (readFlowFields fuel false s ts).map fun p => (f :: p.1, p.2)

/-- A field of a record in braces.  Without the mark of a key there is no value. -/
def readFlowField : (fuel : Nat) → Naming → List Token → Read (Node × Node)
  | 0, _, _ => none
  | fuel + 1, s, ts =>
      match ts with
      | .key :: ts =>
          let key := if endsFlowKey .recordEnd ts then some (missing, s, ts)
            else read ⟨false, false⟩ fuel s ts
          match key with
          | none => none
          | some (k, s, ts) =>
              (readFlowValue fuel .recordEnd s ts).map fun p => ((k, p.1), p.2)
      | ts => (read ⟨false, false⟩ fuel s ts).map fun p => ((p.1, missing), p.2)

end

/-! ## Documents -/

/-- The directives before a document: the meaning of tag handles, and the tokens left. -/
def readDirectives (version : Bool) (handles : List (List Char × List Char)) :
    List Token → Option (List (List Char × List Char) × List Token)
  | .version major minor :: ts =>
      if version || major != 1 || (minor != 1 && minor != 2) then none
      else readDirectives true handles ts
  | .tagDirective handle lead :: ts =>
      if (handles.lookup handle).isSome then none
      else readDirectives version (handles ++ [(handle, lead)]) ts
  | ts => some (handles, ts)

/-- The handles that have a meaning in every document. -/
def commonHandles : List (List Char × List Char) :=
  [(['!'], ['!']), (['!', '!'], "tag:yaml.org,2002:".toList)]

/-- A document starts with directives or with a mark. -/
def startsExplicitly : List Token → Bool
  | .version _ _ :: _ => true
  | .tagDirective _ _ :: _ => true
  | .documentStart :: _ => true
  | _ => false

/-- No content follows the mark of a document before one of these tokens. -/
def endsDocument : List Token → Bool
  | .version _ _ :: _ => true
  | .tagDirective _ _ :: _ => true
  | .documentStart :: _ => true
  | .documentEnd :: _ => true
  | .streamEnd :: _ => true
  | _ => false

/-- What a text holds. -/
inductive Stream where
  /-- No YAML, at least not to the end of the first document. -/
  | malformed
  /-- No document. -/
  | empty
  /-- One document. -/
  | single (root : Node)
  /-- More after the first document. -/
  | several (root : Node)
  deriving Repr

/-- The content of a document, with the state for its directives. -/
def readContent (handles : List (List Char × List Char)) (ts : List Token) : Read Node :=
  let s : Naming := ⟨[], handles ++ commonHandles⟩
  read ⟨true, false⟩ (4 * ts.length + 4) s ts

/-- Nothing but marks of the end of a document follows. -/
def nothingFollows : List Token → Bool
  | .documentEnd :: ts => nothingFollows ts
  | .streamEnd :: _ => true
  | _ => false

/-- What is left behind a document decides whether it is the only one. -/
def Stream.close (root : Node) (ts : List Token) : Stream :=
  match ts with
  | .broken :: _ => .malformed
  | [] => .malformed
  | _ => if nothingFollows ts then .single root else .several root

/-- What the tokens of a text hold. -/
def Stream.ofTokens (ts : List Token) : Stream :=
  if ts.head? = some .streamEnd then .empty
  else if startsExplicitly ts then
    match readDirectives false [] ts with
    | some (handles, .documentStart :: ts) =>
        if endsDocument ts then Stream.close missing ts
        else
          match readContent handles ts with
          | some (root, _, ts) => Stream.close root ts
          | none => .malformed
    | _ => .malformed
  else
    match readContent [] ts with
    | some (root, _, ts) => Stream.close root ts
    | none => .malformed

end Node
end Runbook.Yaml
