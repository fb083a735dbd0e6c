import Runbook.Xml.Token

/-!
# Elements

The tree of an XML text: elements with local names, attributes, children and text.  Declarations of
namespaces are left out, comments and the like leave no trace, and the text of an element is all
the character data directly in it.

`Element.ofText` builds the tree from tokens with a stack of open elements.  The first thing that
goes wrong decides the outcome: the text is no XML, or it does not have exactly one root.
-/

namespace Runbook.Xml

open Runbook.Text

/-- An element. -/
inductive Element where
  /-- An element with its local name, attributes, children and text. -/
  | mk (name : String) (attributes : List (String × String)) (children : List Element)
      (text : String)
  deriving Repr, Inhabited

/-- Why a text has no tree. -/
inductive Flaw where
  /-- The text is no XML. -/
  | malformed
  /-- A second element starts after the root. -/
  | secondRoot
  /-- The text ends within an element. -/
  | unclosed (name : String)
  /-- There is no element. -/
  | noRoot
  deriving Repr, DecidableEq

/-- The wording of a flaw of the root. -/
def Flaw.message : Flaw → String
  | .malformed => "not well-formed"
  | .secondRoot => "document has more than one root element"
  | .unclosed name => "element <" ++ name ++ "> is never closed"
  | .noRoot => "document has no root element"

namespace Element

/-- The local name. -/
def name : Element → String
  | mk n _ _ _ => n

/-- The attributes, in order. -/
def attributes : Element → List (String × String)
  | mk _ as _ _ => as

/-- The elements directly in it. -/
def children : Element → List Element
  | mk _ _ cs _ => cs

/-- The character data directly in it. -/
def text : Element → String
  | mk _ _ _ t => t

/-- The text of an element without children.  Around children, text is layout and no content. -/
def leafText (e : Element) : String := if e.children.isEmpty then e.text else ""

/-- The value of the first attribute of a name, the case of ASCII letters aside. -/
def attribute? (e : Element) (key : String) : Option String :=
  (e.attributes.find? fun a => sameLetters a.1 key).map (·.2)

/-- The first child of a name, the case of ASCII letters aside. -/
def child? (e : Element) (name : String) : Option Element :=
  e.children.find? fun c => sameLetters c.name name

/-- The children of a name, the case of ASCII letters aside. -/
def childrenNamed (e : Element) (name : String) : List Element :=
  e.children.filter fun c => sameLetters c.name name

/-! ## The tree of a text -/

/-- An element whose end tag has not come yet.  Children are kept in reverse. -/
structure Open where
  /-- The full name, which the end tag has to repeat. -/
  fullName : List Char
  /-- The local name. -/
  name : String
  /-- The attributes. -/
  attributes : List (String × String)
  /-- The children so far, the last one first. -/
  children : List Element
  /-- The text so far, one piece after the other in reverse. -/
  text : List (List Char)

/-- The element of an open one. -/
def Open.close (o : Open) : Element :=
  Element.mk o.name o.attributes o.children.reverse (String.ofList o.text.reverse.flatten)

/-- The attributes of a tag with local names and plain values. -/
def attributesOf? (rest : List Char) : Option (List (String × String)) :=
  (attributes? rest).bind fun raws =>
    (raws.filter fun a => !declaresNamespace a.1).mapM fun a =>
      (unescape? a.2).map fun v => (String.ofList (localName a.1), String.ofList v)

/-- The open element of a start tag. -/
def Open.ofTag? (fullName rest : List Char) : Option Open :=
  (attributesOf? rest).map fun as => ⟨fullName, String.ofList (localName fullName), as, [], []⟩

/-- What has been read of a text: the open elements, innermost first, and the root. -/
structure Reading where
  /-- The open elements. -/
  stack : List Open
  /-- The root, once it is closed. -/
  root : Option Element

/-- Puts a closed element into the innermost open one, or makes it the root. -/
def Reading.attach (r : Reading) (e : Element) : Except Flaw Reading :=
  match r.stack with
  | o :: os => .ok { r with stack := { o with children := e :: o.children } :: os }
  | [] =>
      match r.root with
      | some _ => .error .secondRoot
      | none => .ok ⟨[], some e⟩

/-- Puts character data into the innermost open element, if there is one. -/
def Reading.addText (r : Reading) (t : List Char) : Reading :=
  match r.stack with
  | o :: os => { r with stack := { o with text := t :: o.text } :: os }
  | [] => r

/-- Takes one token. -/
def Reading.take (r : Reading) : Token → Except Flaw Reading
  | .start name rest =>
      match Open.ofTag? name rest with
      | some o => .ok { r with stack := o :: r.stack }
      | none => .error .malformed
  | .empty name rest =>
      match Open.ofTag? name rest with
      | some o => r.attach o.close
      | none => .error .malformed
  | .stop name =>
      match r.stack with
      | o :: os => if o.fullName = name then ({ r with stack := os }).attach o.close
          else .error .malformed
      | [] => .error .malformed
  | .text raw =>
      if r.stack.isEmpty then .ok r
      else
        match unescape? raw with
        | some t => .ok (r.addText t)
        | none => .error .malformed
  | .cdata content => .ok (r.addText content)
  | .aside => .ok r
  | .broken => .error .malformed

/-- Takes tokens until one does not fit. -/
def Reading.takeAll (r : Reading) : List Token → Except Flaw Reading
  | [] => .ok r
  | t :: ts =>
      match r.take t with
      | .ok r => r.takeAll ts
      | .error f => .error f

/-- The tree at the end of the text. -/
def Reading.finish (r : Reading) : Except Flaw Element :=
  match r.stack, r.root with
  | o :: _, _ => .error (.unclosed o.name)
  | [], some e => .ok e
  | [], none => .error .noRoot

/-- The tree of a text. -/
def ofText (cs : List Char) : Except Flaw Element :=
  match (Reading.mk [] none).takeAll (Token.ofText cs) with
  | .ok r => r.finish
  | .error f => .error f

end Element
end Runbook.Xml
