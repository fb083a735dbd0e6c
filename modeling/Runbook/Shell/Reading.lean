import Runbook.Shell.Arithmetic
import Runbook.Shell.Command

/-!
# Reading commands

A script is read line by line: the commands of a line are known before those of the next line are
looked at.  A compound command takes up as many lines as it needs.

Every reader takes up characters, so a number of turns that exceeds theirs is enough.
-/

namespace Runbook.Shell

open Arithmetic (isNameChar)
open Runbook.Text (isDigit)

/-- A reader of commands.  What is wrong is said in the words of the shell. -/
abbrev Reader := StateT (List Char) (Except String)

namespace Reader

/-- A character that ends a word. -/
def isDelimiter (c : Char) : Bool := " \t\n;&|<>()".contains c

/-- A character of a word without a meaning of its own. -/
def isPlain (c : Char) : Bool := !isDelimiter c && !"'\"\\$`".contains c

/-- Without blanks, continued lines and a comment. -/
def dropBlanks : (fuel : Nat) → List Char → List Char
  | 0, cs => cs
  | fuel + 1, cs =>
      match cs with
      | ' ' :: r => dropBlanks fuel r
      | '\t' :: r => dropBlanks fuel r
      | '\\' :: '\n' :: r => dropBlanks fuel r
      | '#' :: r => r.dropWhile (· != '\n')
      | r => r

/-- Skips blanks. -/
def skipBlanks : Reader Unit := modify fun cs => dropBlanks (cs.length + 1) cs

/-- Without blanks and line ends. -/
def dropLines : (fuel : Nat) → List Char → List Char
  | 0, cs => cs
  | fuel + 1, cs =>
      match dropBlanks (cs.length + 1) cs with
      | '\n' :: r => dropLines fuel r
      | r => r

/-- Skips blanks and line ends. -/
def skipLines : Reader Unit := modify fun cs => dropLines (cs.length + 1) cs

/-- The words that begin, part or end compound commands. -/
def reservedWords : List String :=
  ["!", "\x7b", "\x7d", "case", "do", "done", "elif", "else", "esac", "fi", "for", "if", "then",
    "until", "while"]

/-- The words that end a list of commands. -/
def closers : List String := ["\x7d", "do", "done", "elif", "else", "esac", "fi", "then"]

/-- The reserved word in front, if there is one. -/
def reserved? (cs : List Char) : Option String :=
  let w := cs.takeWhile isPlain
  match cs.dropWhile isPlain with
  | c :: _ => if isDelimiter c then reservedWords.find? (·.toList == w) else none
  | [] => reservedWords.find? (·.toList == w)

/-- What stands in front, as the shell names it. -/
def named (cs : List Char) : String :=
  match cs with
  | [] => "end of file"
  | '\n' :: _ => "newline"
  | ';' :: ';' :: _ => "\";;\""
  | '&' :: '&' :: _ => "\"&&\""
  | '|' :: '|' :: _ => "\"||\""
  | c :: _ =>
      if isDelimiter c then "\"" ++ String.singleton c ++ "\""
      else
        match reserved? cs with
        | some w => "\"" ++ w ++ "\""
        | none => "word"

/-- Says that something does not belong where it stands. -/
def unexpected {α : Type} (expecting : Option String) : Reader α := fun cs =>
  .error (named cs ++ " unexpected" ++
    (match expecting with
    | some w => " (expecting \"" ++ w ++ "\")"
    | none => ""))

/-- A reserved word that has to come now. -/
def expect (w : String) : Reader Unit := do
  skipLines
  let cs ← get
  if reserved? cs == some w then set (cs.drop w.length) else unexpected (some w)

/-- A closing bracket that has to come now. -/
def expectBracket : Reader Unit := do
  skipLines
  match ← get with
  | ')' :: r => set r
  | _ => unexpected (some ")")

/-- The text up to an apostrophe. -/
def verbatim (cs : List Char) : Reader (List Char) :=
  match cs.dropWhile (· != '\'') with
  | _ :: r => do
      set r
      return cs.takeWhile (· != '\'')
  | [] => throw "Unterminated quoted string"

/-- The text up to a back quote, its escapes resolved, and what follows. -/
def backQuoted : List Char → Option (List Char × List Char)
  | [] => none
  | ['\\'] => none
  | '`' :: r => some ([], r)
  | '\\' :: c :: r =>
      (backQuoted r).map fun p =>
        (if c = '`' ∨ c = '\\' ∨ c = '$' then c :: p.1 else '\\' :: c :: p.1, p.2)
  | c :: r => (backQuoted r).map fun p => (c :: p.1, p.2)

/-- Parameters with a name of one sign. -/
def isSpecial (c : Char) : Bool := "?#*@$!-".contains c

/-- The name of a parameter in braces, and what follows. -/
def parameterName (cs : List Char) : List Char × List Char :=
  match cs with
  | [] => ([], [])
  | c :: r =>
      if isDigit c then (cs.takeWhile isDigit, cs.dropWhile isDigit)
      else if isNameChar c then (cs.takeWhile isNameChar, cs.dropWhile isNameChar)
      else if isSpecial c then ([c], r)
      else ([], cs)

/-- The form of a parameter after its name, and whether a word belongs to it. -/
def formOf (cs : List Char) : Option (Form × List Char) :=
  match cs with
  | '}' :: r => some (.value, '}' :: r)
  | ':' :: c :: r => if "-=+?".contains c then some (.otherwise c true, r) else none
  | '%' :: '%' :: r => some (.strip false true, r)
  | '%' :: r => some (.strip false false, r)
  | '#' :: '#' :: r => some (.strip true true, r)
  | '#' :: r => some (.strip true false, r)
  | c :: r => if "-=+?".contains c then some (.otherwise c false, r) else none
  | [] => none

/-- An assignment, if a word is one. -/
def assignment? : Word → Option (String × Word)
  | .literal false cs :: rest =>
      let name := cs.takeWhile isNameChar
      match name, cs.dropWhile isNameChar with
      | c :: _, '=' :: value =>
          if isDigit c then none
          else some (String.ofList name, .literal false value :: rest)
      | _, _ => none
  | _ => none

/-- The name of a function that is defined here, and what follows its brackets. -/
def functionName? (cs : List Char) : Option (String × List Char) :=
  let name := cs.takeWhile isNameChar
  match name, dropBlanks (cs.length + 1) (cs.dropWhile isNameChar) with
  | _ :: _, '(' :: r =>
      match dropBlanks (r.length + 1) r with
      | ')' :: r => some (String.ofList name, r)
      | _ => none
  | _, _ => none

/-- What follows a name and an opening bracket. -/
def openName? (cs : List Char) : Option (List Char) :=
  match cs.takeWhile isPlain, dropBlanks (cs.length + 1) (cs.dropWhile isPlain) with
  | _ :: _, '(' :: r => some (dropBlanks (r.length + 1) r)
  | _, _ => none

/-- The lines up to one that consists of a given word, and what follows that line. -/
def hereLines (tabs : Bool) (stop : List Char) : (fuel : Nat) → List Char → List Char × List Char
  | 0, cs => (cs, [])
  | _, [] => ([], [])
  | fuel + 1, cs =>
      let l := cs.takeWhile (· != '\n')
      let rest := (cs.dropWhile (· != '\n')).tail
      let l := if tabs then l.dropWhile (· == '\t') else l
      if l = stop then ([], rest)
      else
        let (ls, rest) := hereLines tabs stop fuel rest
        (l ++ '\n' :: ls, rest)

/-- The characters of a word without expansions. -/
def literalChars (w : Word) : List Char :=
  w.flatMap fun p => match p with
    | .literal _ cs => cs
    | _ => []

/-- A part of the word was quoted. -/
def hasQuotes (w : Word) : Bool :=
  w.any fun p => match p with
    | .literal q _ => q
    | _ => false

/-- Double quotes around parts make a field even if it is empty, unless they enclose all
arguments. -/
def inQuotes (ps : List Part) : List Part :=
  match ps with
  | [.parameter _ "@" .value _] => ps
  | _ => .literal true [] :: ps

/-- The line on which the rest of a text begins. -/
def lineOf (total : Nat) (rest : List Char) : Nat := 1 + total - rest.count '\n'

mutual

/-- A word, empty if none begins here. -/
def word : (fuel : Nat) → Reader Word
  | 0 => pure []
  | fuel + 1 => do
      match ← get with
      | [] => pure []
      | '\'' :: r =>
          let cs ← verbatim r
          return .literal true cs :: (← word fuel)
      | '"' :: r =>
          set r
          let ps ← quotedParts fuel
          return inQuotes ps ++ (← word fuel)
      | ['\\'] =>
          set ([] : List Char)
          return [.literal true ['\\']]
      | '\\' :: '\n' :: r =>
          set r
          word fuel
      | '\\' :: c :: r =>
          set r
          return .literal true [c] :: (← word fuel)
      | '$' :: r =>
          set r
          let p ← dollar fuel false
          return p :: (← word fuel)
      | '`' :: r =>
          set r
          let p ← command fuel false
          return p :: (← word fuel)
      | c :: r =>
          if isDelimiter c then pure []
          else
            set (r.dropWhile isPlain)
            return .literal false (c :: r.takeWhile isPlain) :: (← word fuel)

/-- The parts of a text in double quotes, up to the closing one. -/
def quotedParts : (fuel : Nat) → Reader (List Part)
  | 0 => pure []
  | fuel + 1 => do
      match ← get with
      | [] => throw "Unterminated quoted string"
      | '"' :: r =>
          set r
          return []
      | '\\' :: '\n' :: r =>
          set r
          quotedParts fuel
      | '\\' :: c :: r =>
          set r
          let cs := if "$`\"\\".contains c then [c] else ['\\', c]
          return .literal true cs :: (← quotedParts fuel)
      | '$' :: r =>
          set r
          let p ← dollar fuel true
          return p :: (← quotedParts fuel)
      | '`' :: r =>
          set r
          let p ← command fuel true
          return p :: (← quotedParts fuel)
      | c :: r =>
          let isInner (c : Char) : Bool := !"\"\\$`".contains c
          set (r.dropWhile isInner)
          return .literal true (c :: r.takeWhile isInner) :: (← quotedParts fuel)

/-- The parts of a text that follows a command, up to its end. -/
def hereParts : (fuel : Nat) → Reader (List Part)
  | 0 => pure []
  | fuel + 1 => do
      match ← get with
      | [] => return []
      | '\\' :: '\n' :: r =>
          set r
          hereParts fuel
      | '\\' :: c :: r =>
          set r
          let cs := if "$`\\".contains c then [c] else ['\\', c]
          return .literal true cs :: (← hereParts fuel)
      | '$' :: r =>
          set r
          let p ← dollar fuel true
          return p :: (← hereParts fuel)
      | '`' :: r =>
          set r
          let p ← command fuel true
          return p :: (← hereParts fuel)
      | c :: r =>
          set r
          return .literal true [c] :: (← hereParts fuel)

/-- What a back quote begins. -/
def command : (fuel : Nat) → (quoted : Bool) → Reader Part
  | 0, quoted => pure (.literal quoted [])
  | fuel + 1, quoted => do
      match backQuoted (← get) with
      | none => throw "EOF in backquote substitution"
      | some (inner, rest) =>
          set inner
          let c ← list fuel false
          set rest
          return .output quoted c

/-- What a dollar sign begins. -/
def dollar : (fuel : Nat) → (quoted : Bool) → Reader Part
  | 0, quoted => pure (.literal quoted [])
  | fuel + 1, quoted => do
      match ← get with
      | '(' :: '(' :: r =>
          set r
          return .arithmetic quoted (← sum fuel 0)
      | '(' :: r =>
          set r
          let c ← list fuel false
          expectBracket
          return .output quoted c
      | '\x7b' :: '#' :: r =>
          match parameterName r with
          | (c :: name, '\x7d' :: rest) =>
              set rest
              return .parameter quoted (String.ofList (c :: name)) .length []
          | _ =>
              set ('#' :: r)
              braced fuel quoted
      | '\x7b' :: r =>
          set r
          braced fuel quoted
      | c :: r =>
          if isDigit c || isSpecial c then
            set r
            return .parameter quoted (String.singleton c) .value []
          else if isNameChar c then
            set (r.dropWhile isNameChar)
            return .parameter quoted (String.ofList (c :: r.takeWhile isNameChar)) .value []
          else return .literal quoted ['$']
      | [] => return .literal quoted ['$']

/-- A parameter in braces. -/
def braced : (fuel : Nat) → (quoted : Bool) → Reader Part
  | 0, quoted => pure (.literal quoted [])
  | fuel + 1, quoted => do
      match parameterName (← get) with
      | ([], _) => throw "Bad substitution"
      | (name, rest) =>
          match formOf rest with
          | none => throw (if rest.isEmpty then "Missing '\x7d'" else "Bad substitution")
          | some (form, rest) =>
              set rest
              let w ← braceWord fuel quoted
              return .parameter quoted (String.ofList name) form w

/-- The parts of a word within braces, up to the closing one. -/
def braceWord : (fuel : Nat) → (quoted : Bool) → Reader Word
  | 0, _ => pure []
  | fuel + 1, quoted => do
      match ← get with
      | [] => throw "Missing '\x7d'"
      | '\x7d' :: r =>
          set r
          return []
      | '"' :: r =>
          set r
          let ps ← quotedParts fuel
          return .literal true [] :: ps ++ (← braceWord fuel quoted)
      | '\\' :: c :: r =>
          set r
          return .literal true [c] :: (← braceWord fuel quoted)
      | '$' :: r =>
          set r
          let p ← dollar fuel quoted
          return p :: (← braceWord fuel quoted)
      | '`' :: r =>
          set r
          let p ← command fuel quoted
          return p :: (← braceWord fuel quoted)
      | c :: r =>
          if c == '\'' && !quoted then
            let cs ← verbatim r
            return .literal true cs :: (← braceWord fuel quoted)
          else
            set r
            return .literal quoted [c] :: (← braceWord fuel quoted)

/-- The parts of an expression, up to its two closing brackets. -/
def sum : (fuel depth : Nat) → Reader (List Part)
  | 0, _ => pure []
  | fuel + 1, depth => do
      match ← get with
      | [] => throw "Missing '))'"
      | ')' :: r =>
          match depth, r with
          | 0, ')' :: r =>
              set r
              return []
          | 0, _ => throw "Missing '))'"
          | d + 1, r =>
              set r
              return .literal true [')'] :: (← sum fuel d)
      | '(' :: r =>
          set r
          return .literal true ['('] :: (← sum fuel (depth + 1))
      | '$' :: r =>
          set r
          let p ← dollar fuel true
          return p :: (← sum fuel depth)
      | '`' :: r =>
          set r
          let p ← command fuel true
          return p :: (← sum fuel depth)
      | '"' :: r =>
          set r
          sum fuel depth
      | c :: r =>
          set r
          return .literal true [c] :: (← sum fuel depth)

/-- Redirections, as many as there are. -/
def redirections : (fuel : Nat) → Reader (List Redirection)
  | 0 => pure []
  | fuel + 1 => do
      skipBlanks
      let cs ← get
      let digits := cs.takeWhile isDigit
      let given := Runbook.Text.readNat? 10 digits
      let (standard, direction, rest) ← match cs.dropWhile isDigit with
        | '<' :: '<' :: r => pure (0, some Direction.here, r)
        | '<' :: '&' :: r => pure (0, some Direction.copy, r)
        | '<' :: r => pure (0, some Direction.source, r)
        | '>' :: '>' :: r => pure (1, some Direction.append, r)
        | '>' :: '&' :: r => pure (1, some Direction.copy, r)
        | '>' :: '|' :: r => pure (1, some Direction.to, r)
        | '>' :: r => pure (1, some Direction.to, r)
        | r => pure (0, none, r)
      match direction with
      | none => return []
      | some .here =>
          let tabs := rest.head? == some '-'
          set (if tabs then rest.tail else rest)
          skipBlanks
          let w ← word fuel
          if w.isEmpty then unexpected none
          let after ← get
          let rest := after.dropWhile (· != '\n')
          let (body, following) := hereLines tabs (literalChars w) (rest.length + 1) rest.tail
          let parts ← if hasQuotes w then pure [.literal true body]
            else do
              set body
              hereParts fuel
          set (after.takeWhile (· != '\n') ++ rest.take 1 ++ following)
          return .mk (given.getD standard) .here parts :: (← redirections fuel)
      | some d =>
          set rest
          skipBlanks
          let w ← word fuel
          if w.isEmpty then unexpected none
          return .mk (given.getD standard) d w :: (← redirections fuel)

/-- The assignments, words and redirections of a simple command from here on. -/
def simple : (fuel line : Nat) → List (String × Word) → List Word → List Redirection →
    Reader Command
  | 0, _, _, _, _ => pure .nothing
  | fuel + 1, line, as, ws, rs => do
      let more ← redirections fuel
      let rs := rs ++ more
      let w ← word fuel
      if w.isEmpty then
        if as.isEmpty && ws.isEmpty && rs.isEmpty then unexpected none
        else return .simple line as ws rs
      else
        match ws, assignment? w with
        | [], some a => simple fuel line (as ++ [a]) ws rs
        | _, _ => simple fuel line as (ws ++ [w]) rs

/-- Words up to the end of a line or a semicolon. -/
def words : (fuel : Nat) → Reader (List Word)
  | 0 => pure []
  | fuel + 1 => do
      skipBlanks
      let w ← word fuel
      if w.isEmpty then return [] else return w :: (← words fuel)

/-- The patterns of a clause, up to its bracket. -/
def patterns : (fuel : Nat) → Reader (List Word)
  | 0 => pure []
  | fuel + 1 => do
      skipBlanks
      let w ← word fuel
      skipBlanks
      match ← get with
      | '|' :: r =>
          set r
          return w :: (← patterns fuel)
      | ')' :: r =>
          set r
          return [w]
      | _ => unexpected (some ")")

/-- The clauses of a choice by patterns, up to its closing word. -/
def clauses : (fuel : Nat) → Reader (List (List Word × Command))
  | 0 => pure []
  | fuel + 1 => do
      skipLines
      let cs ← get
      if reserved? cs == some "esac" then
        set (cs.drop 4)
        return []
      else
        match cs with
        | '(' :: r => set r
        | _ => pure ()
        let ps ← patterns fuel
        let c ← list fuel true
        skipLines
        match ← get with
        | ';' :: ';' :: r =>
            set r
            return (ps, c) :: (← clauses fuel)
        | _ =>
            expect "esac"
            return [(ps, c)]

/-- What follows the first command of a choice. -/
def alternatives : (fuel total : Nat) → Reader Command
  | 0, _ => pure .nothing
  | fuel + 1, total => do
      let condition ← list fuel false
      expect "then"
      let yes ← list fuel false
      skipLines
      let cs ← get
      match reserved? cs with
      | some "elif" =>
          set (cs.drop 4)
          return .choice condition yes (← alternatives fuel total)
      | some "else" =>
          set (cs.drop 4)
          let no ← list fuel false
          expect "fi"
          return .choice condition yes no
      | _ =>
          expect "fi"
          return .choice condition yes .nothing

/-- A command with its redirections. -/
def compound : (fuel total : Nat) → Reader Command
  | 0, _ => pure .nothing
  | fuel + 1, total => do
      skipBlanks
      let cs ← get
      let c ← match cs, reserved? cs with
        | '(' :: r, _ =>
            set r
            let c ← list fuel false
            expectBracket
            pure (Command.apart c)
        | _, some "\x7b" =>
            set (cs.drop 1)
            let c ← list fuel false
            expect "\x7d"
            pure c
        | _, some "if" =>
            set (cs.drop 2)
            alternatives fuel total
        | _, some "while" =>
            set (cs.drop 5)
            let condition ← list fuel false
            expect "do"
            let body ← list fuel false
            expect "done"
            pure (.loop false condition body)
        | _, some "until" =>
            set (cs.drop 5)
            let condition ← list fuel false
            expect "do"
            let body ← list fuel false
            expect "done"
            pure (.loop true condition body)
        | _, some "for" =>
            set (cs.drop 3)
            skipBlanks
            let r ← get
            let name := r.takeWhile isNameChar
            if name.isEmpty then throw "Bad for loop variable"
            set (r.dropWhile isNameChar)
            skipLines
            let r ← get
            let ws ← match Runbook.Text.dropLead "in".toList r with
              | some r =>
                  set r
                  let ws ← words fuel
                  if (← get).head? ∉ [some ';', some '\n'] then unexpected none
                  pure (some ws)
              | none => pure none
            skipBlanks
            match ← get with
            | ';' :: r => set r
            | _ => pure ()
            expect "do"
            let body ← list fuel false
            expect "done"
            pure (.each (String.ofList name) ws body)
        | _, some "case" =>
            set (cs.drop 4)
            skipBlanks
            let w ← word fuel
            skipLines
            match Runbook.Text.dropLead "in".toList (← get) with
            | some r => set r
            | none => unexpected (some "in")
            let cls ← clauses fuel
            pure (.cases w cls)
        | _, some _ => unexpected none
        | _, none =>
            match functionName? cs with
            | some (name, r) =>
                set r
                skipLines
                let body ← compound fuel total
                pure (.function name body)
            | none =>
                match openName? cs with
                | some r =>
                    set r
                    unexpected (some ")")
                | none => simple fuel (lineOf total cs) [] [] []
      let rs ← redirections fuel
      return if rs.isEmpty then c else .redirected c rs

/-- Commands that read one from the other. -/
def pipeline : (fuel total : Nat) → Reader Command
  | 0, _ => pure .nothing
  | fuel + 1, total => do
      skipBlanks
      let cs ← get
      if reserved? cs == some "!" then
        set (cs.drop 1)
        return .negated (← pipeline fuel total)
      else
        let c ← compound fuel total
        pipes fuel total c

/-- The further commands of a pipeline. -/
def pipes : (fuel total : Nat) → Command → Reader Command
  | 0, _, c => pure c
  | fuel + 1, total, c => do
      skipBlanks
      match ← get with
      | '|' :: '|' :: _ => return c
      | '|' :: r =>
          set r
          skipLines
          let d ← compound fuel total
          pipes fuel total (.joined .pipe c d)
      | _ => return c

/-- The further pipelines that depend on how the first ends. -/
def chain : (fuel total : Nat) → Command → Reader Command
  | 0, _, c => pure c
  | fuel + 1, total, c => do
      skipBlanks
      match ← get with
      | '&' :: '&' :: r =>
          set r
          skipLines
          let d ← pipeline fuel total
          chain fuel total (.joined .both c d)
      | '|' :: '|' :: r =>
          set r
          skipLines
          let d ← pipeline fuel total
          chain fuel total (.joined .either c d)
      | _ => return c

/-- Commands up to what ends a list, which may be empty. -/
def list : (fuel : Nat) → (empty : Bool) → Reader Command
  | 0, _ => pure .nothing
  | fuel + 1, empty => do
      skipLines
      let cs ← get
      let isEnd := match cs with
        | [] => true
        | ')' :: _ => true
        | ';' :: ';' :: _ => true
        | _ => ((reserved? cs).map closers.contains).getD false
      if isEnd && !empty && !cs.isEmpty then unexpected none
      else if isEnd then return .nothing
      else
        let total := cs.count '\n'
        let p ← pipeline fuel total
        let c ← chain fuel total p
        skipBlanks
        match ← get with
        | ';' :: ';' :: _ => return c
        | ';' :: r =>
            set r
            return .joined .sequence c (← list fuel true)
        | '&' :: r =>
            set r
            return .joined .sequence c (← list fuel true)
        | '\n' :: r =>
            set r
            return .joined .sequence c (← list fuel true)
        | _ => return c

end

/-- The further commands of a line. -/
def lineRest (total : Nat) : (fuel : Nat) → Command → Reader Command
  | 0, c => pure c
  | fuel + 1, c => do
      skipBlanks
      let more (r : List Char) : Reader Command := do
        set r
        skipBlanks
        match ← get with
        | [] => return c
        | '\n' :: _ => return c
        | rest =>
            let p ← pipeline (rest.length + 2) total
            let d ← chain (rest.length + 2) total p
            lineRest total fuel (.joined .sequence c d)
      match ← get with
      | [] => return c
      | '\n' :: r =>
          set r
          return c
      | ';' :: ';' :: _ => unexpected none
      | ';' :: r => more r
      | '&' :: r => more r
      | _ => unexpected none

/-- The commands of the next line.  Nothing at the end. -/
def line (total : Nat) : Reader (Option Command) := do
  skipLines
  let cs ← get
  if cs.isEmpty then return none
  else
    let fuel := 4 * cs.length + 16
    let p ← pipeline fuel total
    let c ← chain fuel total p
    return some (← lineRest total fuel c)

end Reader
end Runbook.Shell
