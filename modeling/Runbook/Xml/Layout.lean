import Runbook.Xml.Element

/-!
# Writing XML

A document is written with one element to a line.  A `leaf` holds text or nothing and takes one
line.  A `block` holds elements: its tags take a line each and its content is indented by two
blanks.  A block is written with both tags even if nothing is in it.

`Layout.toElement` is the tree that is meant: the blanks and line ends of a block are its text.
-/

namespace Runbook.Xml

/-- An element laid out for writing. -/
inductive Layout where
  /-- An element on one line: its text between two tags, or a single tag if there is no text. -/
  | leaf (name : String) (attributes : List (String × String)) (text : String)
  /-- An element with its content on lines of their own. -/
  | block (name : String) (attributes : List (String × String)) (content : List Layout)

namespace Layout

/-- An attribute with the blank before it. -/
def attributeText (a : String × String) : List Char :=
  ' ' :: a.1.toList ++ '=' :: '"' :: escape a.2.toList ++ ['"']

/-- A name with its attributes. -/
def tagText (name : String) (attributes : List (String × String)) : List Char :=
  name.toList ++ attributes.flatMap attributeText

/-- A line end and the blanks of an indentation. -/
def newLine (depth : Nat) : List Char := '\n' :: List.replicate (2 * depth) ' '

mutual

/-- An element at a depth, without a line end before or after it. -/
def chars (depth : Nat) : Layout → List Char
  | leaf name attributes text =>
      if text.isEmpty then '<' :: tagText name attributes ++ ['/', '>']
      else
        '<' :: tagText name attributes ++ '>' :: escape text.toList ++
          '<' :: '/' :: name.toList ++ ['>']
  | block name attributes content =>
      '<' :: tagText name attributes ++ '>' :: contentChars (depth + 1) content ++
        newLine depth ++ '<' :: '/' :: name.toList ++ ['>']
termination_by structural l => l

/-- Elements at a depth, each on a new line. -/
def contentChars (depth : Nat) : List Layout → List Char
  | [] => []
  | l :: ls => newLine depth ++ chars depth l ++ contentChars depth ls
termination_by structural ls => ls

end

mutual

/-- The tree that is written at a depth. -/
def toElement (depth : Nat) : Layout → Element
  | leaf name attributes text => .mk name attributes [] text
  | block name attributes content =>
      .mk name attributes (toElements (depth + 1) content)
        (String.ofList
          ((List.replicate content.length (newLine (depth + 1))).flatten ++ newLine depth))
termination_by structural l => l

/-- The trees that are written at a depth. -/
def toElements (depth : Nat) : List Layout → List Element
  | [] => []
  | l :: ls => toElement depth l :: toElements depth ls
termination_by structural ls => ls

end

/-- A document: its declaration and its root. -/
def document (root : Layout) : String :=
  String.ofList ("<?xml version=\"1.0\" encoding=\"utf-8\"?>".toList ++ newLine 0 ++ chars 0 root)

end Layout
end Runbook.Xml
