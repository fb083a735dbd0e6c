import Runbook.Shell.Expansion
import Runbook.Shell.Reading
import Runbook.Shell.Tool

/-!
# Running commands

Commands are run in a session one after the other.  What runs in a shell of its own leaves files and
time behind, and nothing else.

A script may loop for ever, so running is bounded by a number of turns.  A script that exceeds it
counts as endless.
-/

namespace Runbook.Shell

open Runbook.Text

/-- What a name of a program leads to. -/
inductive Program where
  /-- A tool. -/
  | tool (run : Tool)
  /-- A shell. -/
  | shell
  /-- A file that is to be run. -/
  | script (content : List UInt8)
  /-- Nothing that can be run. -/
  | forbidden
  /-- Nothing. -/
  | missing

/-- The names of shells. -/
def shellNames : List String := ["sh", "dash", "bash"]

/-- The program of a name among those that are installed. -/
def installed? (name : String) : Option Program :=
  if shellNames.contains name then some .shell
  else if name = ":" then none
  else (Tool.find? name).map .tool

/-- The program of a name or path. -/
def findProgram (files : Files) (folder : FilePlace) (name : String) : Program :=
  if name.contains '/' then
    let p := Files.place folder name
    match files.find? p with
    | some (.file bs) => .script bs
    | some .folder => .forbidden
    | none =>
        if p.dropLast = ["bin"] ∨ p.dropLast = ["usr", "bin"] then
          ((p.getLast?).bind installed?).getD .missing
        else .missing
  else (installed? name).getD .missing

/-- The interpreter that a script names in its first line, with an argument. -/
def interpreter? (content : List UInt8) : Option (String × List String) :=
  match content with
  | 35 :: 33 :: rest =>
      let l := trimmed (decodeLenient (rest.takeWhile (· != 10)))
      let isGap (c : Char) : Bool := c == ' ' || c == '\t'
      let program := l.takeWhile fun c => !isGap c
      let argument := (l.dropWhile fun c => !isGap c).dropWhile isGap
      some (String.ofList program, if argument.isEmpty then [] else [String.ofList argument])
  | _ => none

namespace Session

/-- What a shell of its own leaves behind. -/
def absorb (s t : Session) : Session :=
  { s with
    files := t.files
    elapsed := t.elapsed
    status := t.status
    input := t.input
    buffers := t.buffers.take s.buffers.length }

/-- A message with the name of the shell and a line. -/
def located (s : Session) (line : Nat) (t : String) : String :=
  s.name ++ ": " ++ toString line ++ ": " ++ t

/-- Opens what a redirection says, or complains. -/
def redirect (s : Session) (line descriptor : Nat) (d : Direction) (target : String) :
    Except Session Session :=
  let aim (t : Target) : Session :=
    if descriptor = 1 then { s with output := t }
    else if descriptor = 2 then { s with complaints := t }
    else s
  let p := s.place target
  match d with
  | .copy =>
      if target = "1" then .ok (aim s.output)
      else if target = "2" then .ok (aim s.complaints)
      else if target = "-" then .ok (aim .nowhere)
      else if target = "0" then .ok s
      else .error ((s.complain (s.located line (target ++ ": Bad file descriptor"))).ending 2).2
  | .here => .ok { s with input := utf8Bytes target.toList }
  | .source =>
      match Tool.readFile s target with
      | .ok bs => .ok { s with input := bs }
      | .error _ =>
          let s := s.complain (s.located line ("cannot open " ++ target ++ ": No such file"))
          .error (s.ending 2).2
  | _ =>
      if target = "/dev/null" then .ok (aim .nowhere)
      else if target = "/dev/stdout" then .ok (aim s.output)
      else if target = "/dev/stderr" then .ok (aim s.complaints)
      else if s.files.isFolder p then
        let s := s.complain (s.located line ("cannot create " ++ target ++ ": Is a directory"))
        .error (s.ending 2).2
      else if !s.files.isFolder p.dropLast then
        .error ((s.complain
          (s.located line ("cannot create " ++ target ++ ": Directory nonexistent"))).ending 2).2
      else
        let keep := d = .append ∧ (s.files.find? p).isSome
        let s := if keep then s else { s with files := s.files.put p (.file []) }
        .ok (if descriptor = 1 then { s with output := .file p }
          else if descriptor = 2 then { s with complaints := .file p }
          else s)

/-- The session with outputs as they were before redirections, and the input if one changed it. -/
def restore (s before : Session) (redirections : List Redirection) : Session :=
  let changed := redirections.any fun r => match r with
    | .mk _ d _ => d == .source || d == .here
  { s with
    input := if changed then before.input else s.input
    output := before.output
    complaints := before.complaints }

end Session

/-- A number written in digits alone. -/
def plainNumber? (t : String) : Option Nat := readNat? 10 t.toList

/-! ## Commands that are part of the shell -/

/-- Sends a signal.  The shell knows no process but itself. -/
def kill (line : Nat) : Tool := fun args s =>
  let (signal, targets) := match args with
    | "-s" :: name :: rest => (name, rest)
    | a :: rest => if a.startsWith "-" then (String.ofList a.toList.tail, rest) else ("15", args)
    | [] => ("15", [])
  match targets with
  | [] => s.refuse (s.located line "kill: Usage: kill [-s sigspec | -signum | -sigspec] [pid | job]... or
kill -l [exitstatus]") 2
  | t :: _ =>
      if some t = s.parameter? "$" then if signal = "0" then s.ending 0 else (.killed, s)
      else s.refuse (s.located line "kill: No such process") 1

/-- Changes the folder. -/
def changeFolder (line : Nat) : Tool := fun args s =>
  let target := args.headD "/"
  let p := s.place target
  if s.files.isFolder p then { s with folder := p }.ending 0
  else s.refuse (s.located line ("cd: can't cd to " ++ target)) 2

/-- Splits a line for variables: each gets a field, the last one what is left. -/
def assignFields : List String → List Char → Session → Session
  | [], _, s => s
  | [name], cs, s => s.assign name (String.ofList (trimmed cs))
  | name :: names, cs, s =>
      let cs := trimStart cs
      let isGap (c : Char) : Bool := c == ' ' || c == '\t'
      assignFields names (cs.dropWhile fun c => !isGap c)
        (s.assign name (String.ofList (cs.takeWhile fun c => !isGap c)))

/-- Reads a line into variables. -/
def readVariables : Tool := fun args s =>
  let names := args.filter fun a => !a.startsWith "-"
  match s.readLine with
  | (none, s) => (assignFields names [] s).ending 1
  | (some (l, complete), s) => (assignFields names l.toList s).ending (if complete then 0 else 1)

/-- Sets the arguments, or the options of the shell. -/
def setArguments : Tool := fun args s =>
  match args with
  | "--" :: rest => { s with arguments := rest }.ending 0
  | a :: _ =>
      match a.toList with
      | '-' :: cs => { s with strict := s.strict || cs.contains 'e' }.ending 0
      | '+' :: cs => { s with strict := s.strict && !cs.contains 'e' }.ending 0
      | _ => { s with arguments := args }.ending 0
  | [] => s.ending 0

/-- Drops the first arguments. -/
def shift (line : Nat) : Tool := fun args s =>
  let n := (plainNumber? (args.headD "1")).getD 1
  if s.arguments.length < n then
    let s := s.complain (s.located line "shift: can't shift that many")
    (.exit, { s with status := 2 })
  else { s with arguments := s.arguments.drop n }.ending 0

/-- Assigns the variables that arguments name with a value. -/
def declare : Tool := fun args s =>
  (args.foldl (fun (s : Session) a =>
    match Reader.assignment? [.literal false a.toList] with
    | some (name, [.literal _ cs]) => s.assign name (String.ofList cs)
    | _ => s) s).ending 0

/-- Leaves the shell, a function or a loop. -/
def leave (line : Nat) (name : String) : Tool := fun args s =>
  let code : Option Nat := match args with
    | a :: _ => plainNumber? a
    | [] => some (if name = "exit" ∨ name = "return" then s.status else 1)
  match code with
  | none =>
      let s := s.complain (s.located line (name ++ ": Illegal number: " ++ args.headD ""))
      (.exit, { s with status := 2 })
  | some n =>
      if name = "exit" then (.exit, { s with status := n % 256 })
      else if name = "return" then (.back, { s with status := n % 256 })
      else if name = "break" then (.leave n, { s with status := 0 })
      else (.again n, { s with status := 0 })

/-- The commands that only change the session. -/
def internal? (line : Nat) (name : String) : Option Tool :=
  match name with
  | "kill" => some (kill line)
  | "cd" => some (changeFolder line)
  | "pwd" => some fun _ s => (s.write (Files.text s.folder ++ "\n")).ending 0
  | "read" => some readVariables
  | "set" => some setArguments
  | "shift" => some (shift line)
  | "export" => some declare
  | "readonly" => some declare
  | "local" => some declare
  | "unset" => some fun args s =>
      { s with bindings := s.bindings.filter fun v => !args.contains v.1 }.ending 0
  | "trap" => some (Tool.idle 0)
  | "wait" => some (Tool.idle 0)
  | "umask" => some (Tool.idle 0)
  | "exit" => some (leave line "exit")
  | "return" => some (leave line "return")
  | "break" => some (leave line "break")
  | "continue" => some (leave line "continue")
  | _ => none

/-- Ends a strict shell after a command that failed. -/
def halting (r : Flow × Session) : Flow × Session :=
  if r.1 = .next ∧ r.2.strict ∧ r.2.status ≠ 0 then (.exit, r.2) else r

/-- The session for a command whose failure counts as an answer. -/
def Session.lenient (s : Session) : Session := { s with strict := false }

/-- What is left of such a command, in a shell that is strict or not. -/
def resumed (strict : Bool) (r : Flow × Session) : Flow × Session :=
  (r.1, { r.2 with strict := strict })

/-! ## Expansion and evaluation -/

/-- The outcome of an expansion: what it comes to, or how the shell ends because of it. -/
abbrev Expanded (α : Type) := Except Flow α × Session

mutual

/-- The pieces of a part of a word. -/
def expandPart : (fuel : Nat) → Part → Session → Expanded (List Piece)
  | 0, _, s => (.error .endless, s)
  | fuel + 1, part, s =>
      match part with
      | .literal quoted cs => (.ok [.keep quoted cs], s)
      | .arithmetic quoted parts =>
          match expandParts fuel parts s with
          | (.error f, s) => (.error f, s)
          | (.ok ps, s) =>
              let valueOf (n : String) : String := (s.parameter? n).getD ""
              match Arithmetic.value? valueOf (Piece.text ps).toList with
              | some n =>
                  let cs := (toString n).toList
                  (.ok [if quoted then .keep true cs else .split cs], s)
              | none =>
                  let s := s.complain (s.located 1
                    ("arithmetic expression: expecting primary: \"" ++ Piece.text ps ++ "\""))
                  (.error .exit, { s with status := 2 })
      | .output quoted body =>
          match capture fuel body s with
          | (.error f, s) => (.error f, s)
          | (.ok bs, s) =>
              let cs := ((decodeLenient bs).reverse.dropWhile (· == '\n')).reverse
              (.ok [if quoted then .keep true cs else .split cs], s)
      | .parameter quoted name form word =>
          let whole (v : String) : List Piece :=
            [if quoted then .keep true v.toList else .split v.toList]
          let value := s.parameter? name
          match form with
          | .value =>
              if name = "@" then
                if quoted then
                  let ps := s.arguments.map fun a => Piece.keep true a.toList
                  (.ok (ps.intersperse .boundary), s)
                else
                  let ps := s.arguments.map fun a => Piece.split a.toList
                  (.ok (ps.intersperse .boundary), s)
              else (.ok (whole (value.getD "")), s)
          | .length => (.ok (whole (toString (value.getD "").length)), s)
          | .strip front longest =>
              match expandParts fuel word s with
              | (.error f, s) => (.error f, s)
              | (.ok ps, s) =>
                  let cs := (value.getD "").toList
                  let pattern := Piece.pattern ps
                  let strip := if front then stripFront else stripEnd
                  let cs := strip longest pattern cs
                  (.ok (whole (String.ofList cs)), s)
          | .otherwise sign emptyCounts =>
              let isThere := match value with
                | none => false
                | some v => !(emptyCounts && v == "")
              if sign = '+' then
                if isThere then expandParts fuel word s
                else (.ok (if quoted then [.keep true []] else []), s)
              else if isThere then (.ok (whole (value.getD "")), s)
              else
                match expandParts fuel word s with
                | (.error f, s) => (.error f, s)
                | (.ok ps, s) =>
                    if sign = '=' then (.ok ps, s.assign name (Piece.text ps))
                    else if sign = '?' then
                      let t := Piece.text ps
                      let s := s.complain (s.located 1 (name ++ ": " ++
                        (if t.isEmpty then "parameter not set" else t)))
                      (.error .exit, { s with status := 2 })
                    else (.ok ps, s)

/-- The pieces of parts. -/
def expandParts : (fuel : Nat) → List Part → Session → Expanded (List Piece)
  | 0, _, s => (.error .endless, s)
  | _ + 1, [], s => (.ok [], s)
  | fuel + 1, p :: ps, s =>
      match expandPart fuel p s with
      | (.error f, s) => (.error f, s)
      | (.ok a, s) =>
          match expandParts fuel ps s with
          | (.error f, s) => (.error f, s)
          | (.ok b, s) => (.ok (a ++ b), s)

/-- The arguments that words stand for. -/
def expandWords : (fuel : Nat) → List Word → Session → Expanded (List String)
  | 0, _, s => (.error .endless, s)
  | _ + 1, [], s => (.ok [], s)
  | fuel + 1, w :: ws, s =>
      match expandParts fuel w s with
      | (.error f, s) => (.error f, s)
      | (.ok ps, s) =>
          let separators := (s.bindings.get? "IFS").getD " \t\n"
          let args := (Fields.ofPieces separators.toList ps).flatMap (globbed s)
          match expandWords fuel ws s with
          | (.error f, s) => (.error f, s)
          | (.ok more, s) => (.ok (args ++ more), s)

/-- What a command writes, in a shell of its own. -/
def capture : (fuel : Nat) → Command → Session → Expanded (List UInt8)
  | 0, _, s => (.error .endless, s)
  | fuel + 1, body, s =>
      let n := s.buffers.length
      let (flow, t) := evaluate fuel body
        { s with buffers := s.buffers ++ [[]], output := .buffer n, status := 0 }
      match flow with
      | .killed => (.error .killed, s.absorb t)
      | .endless => (.error .endless, s.absorb t)
      | _ => (.ok (t.content n), s.absorb t)

/-- Makes assignments. -/
def assignAll : (fuel : Nat) → List (String × Word) → Session → Expanded Unit
  | 0, _, s => (.error .endless, s)
  | _ + 1, [], s => (.ok (), s)
  | fuel + 1, (name, w) :: rest, s =>
      match expandParts fuel w s with
      | (.error f, s) => (.error f, s)
      | (.ok ps, s) => assignAll fuel rest (s.assign name (Piece.text ps))

/-- Opens redirections.  Nothing if one of them cannot be opened. -/
def redirectAll : (fuel line : Nat) → List Redirection → Session → Expanded Bool
  | 0, _, _, s => (.error .endless, s)
  | _ + 1, _, [], s => (.ok true, s)
  | fuel + 1, line, .mk descriptor direction target :: rest, s =>
      match expandParts fuel target s with
      | (.error f, s) => (.error f, s)
      | (.ok ps, s) =>
          match s.redirect line descriptor direction (Piece.text ps) with
          | .ok s => redirectAll fuel line rest s
          | .error s => (.ok false, s)

/-- Runs a program with a name. -/
def invoke : (fuel line : Nat) → (name : String) → List String → Session → Flow × Session
  | 0, _, _, _, s => (.endless, s)
  | fuel + 1, line, name, args, s =>
      match s.functions.lookup name with
      | some body =>
          match evaluate fuel body { s with arguments := args } with
          | (.back, t) => (.next, { t with arguments := s.arguments })
          | (f, t) => (f, { t with arguments := s.arguments })
      | none =>
          if name = "eval" then runScript fuel (String.intercalate " " args).toList s
          else if name = "." then
            match Tool.readFile s (args.headD "") with
            | .ok bs => runScript fuel (decodeLenient bs) s
            | .error _ =>
                let file := args.headD ""
                let reason := if file.contains '/' then ": cannot open " ++ file ++ ": No such file"
                  else ": " ++ file ++ ": not found"
                let s := s.complain (s.located line ("." ++ reason))
                (.exit, { s with status := 2 })
          else if name = "exec" then
            match args with
            | [] => s.ending 0
            | program :: rest =>
                match invoke fuel line program rest s with
                | (.next, s) => (.exit, s)
                | r => r
          else if name = "command" ∨ name = "env" then
            match args with
            | [] => s.ending 0
            | ["-v", program] =>
                if (internal? line program).isSome || (Tool.find? program).isSome then
                  (s.write (program ++ "\n")).ending 0
                else s.ending 127
            | program :: rest => invoke fuel line program rest s
          else
            match internal? line name, Tool.find? name with
            | some tool, _ => tool args s
            | none, some tool => tool args s
            | none, none =>
                match start fuel name args s with
                | .ok r => r
                | .error code =>
                    let reason := if code = 13 then "Permission denied" else "not found"
                    let status := if code = 13 then 126 else 127
                    s.refuse (s.located line (name ++ ": " ++ reason)) status

/-- Starts a program in a process of its own, or says by a number why there is none. -/
def start : (fuel : Nat) → (name : String) → List String → Session → Except Nat (Flow × Session)
  | 0, _, _, s => .ok (.endless, s)
  | fuel + 1, name, args, s =>
      let apart (t : Session) (run : Session → Flow × Session) : Flow × Session :=
        match run t with
        | (.killed, t) => (.killed, s.absorb t)
        | (.endless, t) => (.endless, s.absorb t)
        | (_, t) => (.next, s.absorb t)
      let fresh (name : String) (args : List String) : Session :=
        { s with functions := [], name := name, arguments := args, status := 0, strict := false }
      match findProgram s.files s.folder name with
      | .tool run => .ok (run args s)
      | .missing => .error 2
      | .forbidden => .error 13
      | .script content =>
          match interpreter? content with
          | some (program, options) => start fuel program (options ++ name :: args) s
          | none => .ok (apart (fresh name args) (runScript fuel (decodeLenient content)))
      | .shell =>
          match args with
          | ["-c"] => .ok (s.refuse (name ++ ": 0: -c requires an argument") 2)
          | "-c" :: text :: rest =>
              .ok (apart (fresh (rest.headD name) rest.tail) (runScript fuel text.toList))
          | "-e" :: rest => start fuel name rest s
          | "-s" :: rest =>
              let script := runScript fuel (decodeLenient s.input)
              .ok (apart { fresh name rest with input := [] } script)
          | [] =>
              let script := runScript fuel (decodeLenient s.input)
              .ok (apart { fresh name [] with input := [] } script)
          | file :: rest =>
              match Tool.readFile s file with
              | .ok bs => .ok (apart (fresh file rest) (runScript fuel (decodeLenient bs)))
              | .error _ =>
                  .ok (s.refuse (name ++ ": 0: cannot open " ++ file ++ ": No such file") 2)

/-- Runs a command. -/
def evaluate : (fuel : Nat) → Command → Session → Flow × Session
  | 0, _, s => (.endless, s)
  | fuel + 1, command, s =>
      match command with
      | .nothing => (.next, s)
      | .simple line assignments words redirections =>
          let s := { s with status := if words.isEmpty then 0 else s.status }
          match expandWords fuel words s with
          | (.error f, s) => (f, s)
          | (.ok args, t) =>
              match redirectAll fuel line redirections t with
              | (.error f, t) => (f, t.restore s redirections)
              | (.ok false, t) => (.next, t.restore s redirections)
              | (.ok true, t) =>
                  match assignAll fuel assignments t with
                  | (.error f, t) => (f, t.restore s redirections)
                  | (.ok (), u) =>
                      match args with
                      | [] => (.next, u.restore s redirections)
                      | name :: args =>
                          let (f, v) := invoke fuel line name args u
                          let v := if redirections.isEmpty then v else v.restore s redirections
                          halting
                            (f, if assignments.isEmpty then v else { v with bindings := t.bindings })
      | .joined .sequence a b =>
          match evaluate fuel a s with
          | (.next, s) => evaluate fuel b s
          | r => r
      | .joined .both a b =>
          match resumed s.strict (evaluate fuel a s.lenient) with
          | (.next, s) => if s.status = 0 then evaluate fuel b s else (.next, s)
          | r => r
      | .joined .either a b =>
          match resumed s.strict (evaluate fuel a s.lenient) with
          | (.next, s) => if s.status = 0 then (.next, s) else evaluate fuel b s
          | r => r
      | .joined .pipe a b =>
          match capture fuel a s with
          | (.error f, s) => (f, s)
          | (.ok bs, t) =>
              match separate fuel b { t with input := bs } with
              | (f, u) => halting (f, { u with input := t.input })
      | .negated body =>
          match resumed s.strict (evaluate fuel body s.lenient) with
          | (.next, s) => (.next, { s with status := if s.status = 0 then 1 else 0 })
          | r => r
      | .apart body => halting (separate fuel body s)
      | .redirected body redirections =>
          match redirectAll fuel 1 redirections s with
          | (.error f, t) => (f, t.restore s redirections)
          | (.ok false, t) => (.next, t.restore s redirections)
          | (.ok true, t) =>
              let (f, u) := evaluate fuel body t
              (f, u.restore s redirections)
      | .choice condition yes no =>
          match resumed s.strict (evaluate fuel condition s.lenient) with
          | (.next, s) => evaluate fuel (if s.status = 0 then yes else no) { s with status := 0 }
          | r => r
      | .loop untilHolds condition body => repeated fuel untilHolds condition body 0 s
      | .each name words body =>
          match words with
          | none => forEach fuel name s.arguments body { s with status := 0 }
          | some ws =>
              match expandWords fuel ws s with
              | (.error f, s) => (f, s)
              | (.ok args, s) => forEach fuel name args body { s with status := 0 }
      | .cases word clauses =>
          match expandParts fuel word s with
          | (.error f, s) => (f, s)
          | (.ok ps, s) => select fuel (Piece.text ps).toList clauses { s with status := 0 }
      | .function name body =>
          (.next, { s with functions := (name, body) :: s.functions, status := 0 })

/-- Runs a command in a shell of its own. -/
def separate : (fuel : Nat) → Command → Session → Flow × Session
  | 0, _, s => (.endless, s)
  | fuel + 1, body, s =>
      match evaluate fuel body s with
      | (.killed, t) => (.killed, s.absorb t)
      | (.endless, t) => (.endless, s.absorb t)
      | (_, t) => (.next, s.absorb t)

/-- Runs a loop, `last` being the exit code of its last turn. -/
def repeated : (fuel : Nat) → (untilHolds : Bool) → (condition body : Command) → (last : Nat) →
    Session → Flow × Session
  | 0, _, _, _, _, s => (.endless, s)
  | fuel + 1, untilHolds, condition, body, last, s =>
      match resumed s.strict (evaluate fuel condition s.lenient) with
      | (.next, s) =>
          if (s.status == 0) == untilHolds then (.next, { s with status := last })
          else
            match evaluate fuel body s with
            | (.next, s) => repeated fuel untilHolds condition body s.status s
            | (.again (n + 2), s) => (.again (n + 1), s)
            | (.again _, s) => repeated fuel untilHolds condition body s.status s
            | (.leave (n + 2), s) => (.leave (n + 1), s)
            | (.leave _, s) => (.next, s)
            | r => r
      | r => r

/-- Runs a command for each of some values of a variable. -/
def forEach : (fuel : Nat) → (name : String) → List String → (body : Command) → Session →
    Flow × Session
  | 0, _, _, _, s => (.endless, s)
  | _ + 1, _, [], _, s => (.next, s)
  | fuel + 1, name, v :: vs, body, s =>
      match evaluate fuel body (s.assign name v) with
      | (.next, s) => forEach fuel name vs body s
      | (.again (n + 2), s) => (.again (n + 1), s)
      | (.again _, s) => forEach fuel name vs body s
      | (.leave (n + 2), s) => (.leave (n + 1), s)
      | (.leave _, s) => (.next, s)
      | r => r

/-- Runs the first clause with a pattern that matches. -/
def select : (fuel : Nat) → List Char → List (List Word × Command) → Session → Flow × Session
  | 0, _, _, s => (.endless, s)
  | _ + 1, _, [], s => (.next, s)
  | fuel + 1, cs, (patterns, body) :: rest, s =>
      match expandPatterns fuel patterns s with
      | (.error f, s) => (f, s)
      | (.ok ps, s) =>
          if ps.any fun p => isMatch p cs then evaluate fuel body s else select fuel cs rest s

/-- The patterns that words stand for. -/
def expandPatterns : (fuel : Nat) → List Word → Session → Expanded (List (List Marked))
  | 0, _, s => (.error .endless, s)
  | _ + 1, [], s => (.ok [], s)
  | fuel + 1, w :: ws, s =>
      match expandParts fuel w s with
      | (.error f, s) => (.error f, s)
      | (.ok ps, s) =>
          match expandPatterns fuel ws s with
          | (.error f, s) => (.error f, s)
          | (.ok more, s) => (.ok (Piece.pattern ps :: more), s)

/-- Runs a script from here on. -/
def runScript : (fuel : Nat) → List Char → Session → Flow × Session
  | 0, _, s => (.endless, s)
  | fuel + 1, cs, s => runLines fuel (cs.count '\n') cs s

/-- Runs the lines that are left of a script, `total` being the number of its line ends. -/
def runLines : (fuel total : Nat) → List Char → Session → Flow × Session
  | 0, _, _, s => (.endless, s)
  | fuel + 1, total, cs, s =>
      match (Reader.line total).run cs with
      | .error e =>
          let s := s.complain (s.located (Reader.lineOf total cs) ("Syntax error: " ++ e))
          (.exit, { s with status := 2 })
      | .ok (none, _) => (.next, s)
      | .ok (some c, rest) =>
          match evaluate fuel c s with
          | (.next, s) => runLines fuel total rest s
          | (.leave _, s) => runLines fuel total rest s
          | (.again _, s) => runLines fuel total rest s
          | r => r

end

end Runbook.Shell
