/-!
# Commands

What a command line says: words with quotes and expansions in them, and commands built from words.
-/

namespace Runbook.Shell

/-- What is done with the value of a parameter. -/
inductive Form where
  /-- The value is taken as it is. -/
  | value
  /-- The number of its characters. -/
  | length
  /-- Something else if it is not set, or empty where that counts.  The sign says what: `-` a word,
  `=` a word that is assigned too, `+` a word in the other case, `?` an error. -/
  | otherwise (sign : Char) (emptyCounts : Bool)
  /-- A part that matches a word is taken off its front or end, the shortest or the longest. -/
  | strip (front longest : Bool)
  deriving DecidableEq, Repr

/-- What connects two commands. -/
inductive Connective where
  /-- One after the other. -/
  | sequence
  /-- The second if the first succeeds. -/
  | both
  /-- The second if the first fails. -/
  | either
  /-- The second reads what the first writes. -/
  | pipe
  deriving DecidableEq, Repr

/-- What a redirection does. -/
inductive Direction where
  /-- Reads a file. -/
  | source
  /-- Writes a file anew. -/
  | to
  /-- Writes at the end of a file. -/
  | append
  /-- Writes where another descriptor does. -/
  | copy
  /-- Reads a text that follows the command. -/
  | here
  deriving DecidableEq, Repr

mutual

/-- A part of a word. -/
inductive Part where
  /-- Characters that stand for themselves. -/
  | literal (quoted : Bool) (cs : List Char)
  /-- The value of a parameter. -/
  | parameter (quoted : Bool) (name : String) (form : Form) (word : List Part)
  /-- What a command writes. -/
  | output (quoted : Bool) (body : Command)
  /-- The value of an expression. -/
  | arithmetic (quoted : Bool) (expression : List Part)

/-- A redirection of a descriptor. -/
inductive Redirection where
  /-- The descriptor, what is done with it, and the word that says where. -/
  | mk (descriptor : Nat) (direction : Direction) (target : List Part)

/-- A command. -/
inductive Command where
  /-- Nothing at all. -/
  | nothing
  /-- Assignments and words, at a line. -/
  | simple (line : Nat) (assignments : List (String × List Part)) (words : List (List Part))
      (redirections : List Redirection)
  /-- Two commands. -/
  | joined (connective : Connective) (first second : Command)
  /-- A command whose success is turned around. -/
  | negated (body : Command)
  /-- A command in a shell of its own. -/
  | apart (body : Command)
  /-- A command with redirections. -/
  | redirected (body : Command) (redirections : List Redirection)
  /-- A choice. -/
  | choice (condition yes no : Command)
  /-- A loop, as long as a condition holds, or until it does. -/
  | loop (untilHolds : Bool) (condition body : Command)
  /-- A loop over words, by default over the arguments. -/
  | each (name : String) (words : Option (List (List Part))) (body : Command)
  /-- A choice by patterns. -/
  | cases (word : List Part) (clauses : List (List (List Part) × Command))
  /-- A function. -/
  | function (name : String) (body : Command)

end

/-- A word of a command. -/
abbrev Word := List Part

instance : Inhabited Command := ⟨.nothing⟩

end Runbook.Shell
