import Runbook.Yaml.Node.OfTokens
import Runbook.Yaml.Scalar

/-!
# The data of a YAML text

Texts are resolved, references are replaced by what they lead to, and a tag that is neither one of
the common ones nor written out in full stays in front of its value.

A text stands for data if it holds at most one document, in which no record has a key twice, nothing
is nested more than 128 deep, and references are not followed more often than a hundred times the
parts of the document.
-/

namespace Runbook.Yaml

/-! ## Values of texts -/

/-- A common tag. -/
def commonTag (name : String) : List Char := "tag:yaml.org,2002:".toList ++ name.toList

/-- The tag that stays in front of a value. -/
def keptTag? (tag : Option (List Char)) : Option String :=
  match tag with
  | some ['!'] => some "!"
  | some ('!' :: r) => some (String.ofList r)
  | _ => none

/-- The value of a text under a common tag, or under none. -/
def scalarValue? (tag : Option (List Char)) (text : List Char) (plain : Bool) : Option Data :=
  match tag with
  | none => if plain then resolve? text else some (.text (String.ofList text))
  | some t =>
      if t = commonTag "bool" then (flag? text).map .bool
      else if t = commonTag "int" then
        match whole? text with
        | some n => some (.int n)
        | none => none
      else if t = commonTag "float" then (real? text).map .real
      else if t = commonTag "null" then if isNull text then some .null else none
      else some (.text (String.ofList text))

/-! ## Following references -/

/-- What is needed to follow references. -/
structure Links where
  /-- Where they lead. -/
  targets : List (Nat × Node)
  /-- How often one may be followed. -/
  limit : Nat

/-- A value with the number of references followed. -/
abbrev Counted (α : Type) := Nat → Option (α × Nat)

/-- Values one after the other. -/
def countedAll {α β : Type} (f : α → Counted β) : List α → Counted (List β)
  | [], n => some ([], n)
  | a :: as, n =>
      match f a n with
      | none => none
      | some (b, n) => (countedAll f as n).map fun p => (b :: p.1, p.2)

/-- Fields one after the other.  No key may be one of those before, which are kept in reverse. -/
def countedFields {α : Type} (f : α → Counted Data) (before : List (Data × Data)) :
    List (α × α) → Counted (List (Data × Data))
  | [], n => some (before.reverse, n)
  | (k, v) :: fs, n =>
      match f k n with
      | none => none
      | some (k, n) =>
          if before.any fun b => b.1.same k then none
          else
            match f v n with
            | none => none
            | some (v, n) => countedFields f ((k, v) :: before) fs n

/-- The value with a tag that stays. -/
def withTag (tag : Option String) (d : Data) : Data :=
  match tag with
  | some t => .tagged t d
  | none => d

/-- The node that is meant, and the number of references followed. -/
def follow (links : Links) (n : Node) : Counted Node := fun seen =>
  match n with
  | .reference target =>
      if seen + 1 ≤ links.limit then
        (links.targets.lookup target).map fun m => (m, seen + 1)
      else none
  | n => some (n, seen)

/-- The data of a node, nested at most `room` deep. -/
def dataOf (links : Links) : (room : Nat) → Node → Counted Data
  | room, n, seen =>
      match follow links n seen with
      | none => none
      | some (.scalar l text plain, seen) =>
          match keptTag? l.tag with
          | some t =>
              (scalarValue? none text plain).map fun d => (.tagged t d, seen)
          | none => (scalarValue? l.tag text plain).map fun d => (d, seen)
      | some (.list l items, seen) =>
          match room with
          | 0 => none
          | room + 1 =>
              (countedAll (dataOf links room) items seen).map
                fun p => (withTag (keptTag? l.tag) (.list p.1), p.2)
      | some (.record l fields, seen) =>
          match room with
          | 0 => none
          | room + 1 =>
              (countedFields (dataOf links room) [] fields seen).map
                fun p => (withTag (keptTag? l.tag) (.record p.1), p.2)
      | some (.reference _, _) => none

/-- Lists and records may be nested that deep. -/
def maxDepth : Nat := 128

/-- The references of a document. -/
def Links.ofRoot (root : Node) : Links := ⟨root.targets, root.parts * 100⟩

/-- The data of a document. -/
def documentData? (root : Node) : Option Data :=
  ((dataOf (Links.ofRoot root) maxDepth root) 0).map (·.1)

/-! ## Texts -/

/-- Why a text stands for no data. -/
inductive Flaw where
  /-- It is no YAML, or the document is not to be read. -/
  | malformed
  /-- It holds more than one document. -/
  | severalDocuments
  deriving DecidableEq, Repr

/-- What the documents of a text stand for. -/
def ofStream : Node.Stream → Except Flaw Data
  | .malformed => .error .malformed
  | .empty => .ok .null
  | .single root =>
      match documentData? root with
      | some d => .ok d
      | none => .error .malformed
  | .several root =>
      if (documentData? root).isSome then .error .severalDocuments else .error .malformed

/-- The data of a text. -/
def read (cs : List Char) : Except Flaw Data := ofStream (Node.Stream.ofTokens (Token.ofChars cs))

end Runbook.Yaml
