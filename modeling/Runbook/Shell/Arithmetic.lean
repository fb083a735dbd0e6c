import Runbook.Text.Integer

/-!
# Arithmetic of the shell

Expressions on whole numbers with the usual operators and their precedences.  A name stands for the
number its variable holds.
-/

namespace Runbook.Shell.Arithmetic

open Runbook.Text

/-- The operators of two operands by their levels, the weakest first. -/
def levels : List (List String) :=
  [["||"], ["&&"], ["|"], ["^"], ["&"], ["==", "!="], ["<=", ">=", "<", ">"], ["<<", ">>"],
    ["+", "-"], ["*", "/", "%"]]

/-- A truth value as a number. -/
def ofBool (b : Bool) : Int := if b then 1 else 0

/-- Applies an operator.  Nothing if it divides by zero. -/
def apply (op : String) (a b : Int) : Option Int :=
  match op with
  | "||" => some (ofBool (a != 0 || b != 0))
  | "&&" => some (ofBool (a != 0 && b != 0))
  | "|" => some (Int.ofNat (a.toNat ||| b.toNat))
  | "^" => some (Int.ofNat (a.toNat ^^^ b.toNat))
  | "&" => some (Int.ofNat (a.toNat &&& b.toNat))
  | "==" => some (ofBool (a == b))
  | "!=" => some (ofBool (a != b))
  | "<=" => some (ofBool (a ≤ b))
  | ">=" => some (ofBool (b ≤ a))
  | "<" => some (ofBool (a < b))
  | ">" => some (ofBool (b < a))
  | "<<" => some (a * Nat.pow 2 b.toNat)
  | ">>" => some (a.fdiv (Nat.pow 2 b.toNat))
  | "+" => some (a + b)
  | "-" => some (a - b)
  | "*" => some (a * b)
  | "/" => if b = 0 then none else some (a.tdiv b)
  | "%" => if b = 0 then none else some (a.tmod b)
  | _ => none

/-- Without blanks in front. -/
def skip (cs : List Char) : List Char := cs.dropWhile fun c => c == ' ' || c == '\t' || c == '\n'

/-- An operator of a level, if the text starts with one.  A longer operator is not taken apart. -/
def operator? (ops : List String) (cs : List Char) : Option (String × List Char) :=
  ops.findSome? fun op =>
    match dropLead op.toList cs with
    | some rest =>
        let doubled := op.length = 1 ∧ (op = "|" ∨ op = "&" ∨ op = "<" ∨ op = ">") ∧
          rest.head? = op.toList.head?
        if doubled then none else some (op, rest)
    | none => none

/-- The number a text stands for: decimal, or octal after a zero, or hexadecimal. -/
def numberOf (cs : List Char) : Option Int :=
  match cs with
  | '0' :: 'x' :: r => (readNat? 16 r).map Int.ofNat
  | '0' :: 'X' :: r => (readNat? 16 r).map Int.ofNat
  | '0' :: c :: r => (readNat? 8 (c :: r)).map Int.ofNat
  | r => (readNat? 10 r).map Int.ofNat

/-- A character of a name. -/
def isNameChar (c : Char) : Bool := isAsciiLetter c || isDigit c || c == '_'

/-- The number a variable holds. -/
def held (s : String) : Int :=
  match skip s.toList with
  | '-' :: r => -((numberOf r).getD 0)
  | r => (numberOf r).getD 0

mutual

/-- An expression of the levels from some on. -/
def expression (look : String → String) : (fuel : Nat) → List (List String) → List Char →
    Option (Int × List Char)
  | 0, _, _ => none
  | fuel + 1, [], cs => operand look fuel cs
  | fuel + 1, ops :: more, cs =>
      match expression look fuel more cs with
      | some (a, rest) => further look fuel ops more a rest
      | none => none

/-- What follows the first operand of a level. -/
def further (look : String → String) : (fuel : Nat) → List String → List (List String) → Int →
    List Char → Option (Int × List Char)
  | 0, _, _, _, _ => none
  | fuel + 1, ops, more, a, cs =>
      match operator? ops (skip cs) with
      | none => some (a, cs)
      | some (op, rest) =>
          match expression look fuel more rest with
          | some (b, rest) =>
              match apply op a b with
              | some c => further look fuel ops more c rest
              | none => none
          | none => none

/-- An operand. -/
def operand (look : String → String) : (fuel : Nat) → List Char → Option (Int × List Char)
  | 0, _ => none
  | fuel + 1, cs =>
      match skip cs with
      | '(' :: r =>
          match whole look fuel r with
          | some (a, rest) =>
              match skip rest with
              | ')' :: rest => some (a, rest)
              | _ => none
          | none => none
      | '-' :: r => (operand look fuel r).map fun p => (-p.1, p.2)
      | '+' :: r => operand look fuel r
      | '!' :: r => (operand look fuel r).map fun p => (ofBool (p.1 == 0), p.2)
      | '~' :: r => (operand look fuel r).map fun p => (-p.1 - 1, p.2)
      | r =>
          let word := r.takeWhile isNameChar
          let rest := r.dropWhile isNameChar
          match word with
          | [] => none
          | c :: _ =>
              if isDigit c then (numberOf word).map fun n => (n, rest)
              else some (held (look (String.ofList word)), rest)

/-- An expression with a choice, if there is one. -/
def whole (look : String → String) : (fuel : Nat) → List Char → Option (Int × List Char)
  | 0, _ => none
  | fuel + 1, cs =>
      match expression look fuel levels cs with
      | none => none
      | some (a, rest) =>
          match skip rest with
          | '?' :: r =>
              match whole look fuel r with
              | some (b, rest) =>
                  match skip rest with
                  | ':' :: r => (whole look fuel r).map fun p => (if a != 0 then b else p.1, p.2)
                  | _ => none
              | none => none
          | _ => some (a, rest)

end

/-- The value of an expression.  Nothing if it is none. -/
def value? (look : String → String) (cs : List Char) : Option Int :=
  if (skip cs).isEmpty then some 0
  else
    match whole look (cs.length * 16 + 64) cs with
    | some (n, rest) => if (skip rest).isEmpty then some n else none
    | none => none

end Runbook.Shell.Arithmetic
