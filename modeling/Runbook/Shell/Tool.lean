import Runbook.Shell.Arithmetic
import Runbook.Shell.Session

/-!
# Tools

The programs that a shell finds by their names.  A tool gets its arguments and a session, writes
into it and ends with an exit code.
-/

namespace Runbook.Shell

open Runbook.Text

/-- A program by its arguments. -/
abbrev Tool := List String → Session → Flow × Session

namespace Tool

/-! ## Escapes -/

/-- The character of an escape by a letter. -/
def letter? : Char → Option UInt8
  | 'a' => some 7
  | 'b' => some 8
  | 'f' => some 12
  | 'n' => some 10
  | 'r' => some 13
  | 't' => some 9
  | 'v' => some 11
  | '\\' => some 92
  | _ => none

/-- An octal digit. -/
def isOctal (c : Char) : Bool := '0' ≤ c && c ≤ '7'

/-- The byte that octal digits name. -/
def octal (cs : List Char) : UInt8 := ((natOfDigits 8 0 cs).getD 0).toUInt8

/-- A character that is escaped: its bytes and what follows. -/
def escape (cs : List Char) : List UInt8 × List Char :=
  match cs with
  | [] => ([92], [])
  | c :: r =>
      if isOctal c then
        let ds := (cs.take 3).takeWhile isOctal
        ([octal ds], cs.drop ds.length)
      else
        match letter? c with
        | some b => ([b], r)
        | none => (92 :: charBytes c, r)

/-- A text with its escapes resolved, and whether it asks to stop. -/
def unescaped : (fuel : Nat) → List Char → List UInt8 × Bool
  | 0, _ => ([], false)
  | _, [] => ([], false)
  | _, '\\' :: 'c' :: _ => ([], true)
  | fuel + 1, '\\' :: '0' :: r =>
      let ds := (r.take 3).takeWhile isOctal
      let (bs, stop) := unescaped fuel (r.drop ds.length)
      (octal ds :: bs, stop)
  | fuel + 1, '\\' :: r =>
      let (b, r) := escape r
      let (bs, stop) := unescaped fuel r
      (b ++ bs, stop)
  | fuel + 1, c :: r =>
      let (bs, stop) := unescaped fuel r
      (charBytes c ++ bs, stop)

/-! ## Writing -/

/-- Writes its arguments. -/
def echo : Tool := fun args s =>
  let (silent, args) := match args with
    | "-n" :: rest => (true, rest)
    | _ => (false, args)
  let t := (String.intercalate " " args).toList
  let (bs, stop) := unescaped (t.length + 1) t
  (s.writeBytes (bs ++ if silent || stop then [] else [10])).ending 0

/-- How an argument is laid out. -/
structure Layout where
  /-- Flags. -/
  flags : List Char
  /-- The least width. -/
  width : Nat
  /-- The precision. -/
  precision : Option Nat

/-- Bytes laid out to a width. -/
def Layout.pad (l : Layout) (bs : List UInt8) (zero : Bool) : List UInt8 :=
  let fill := List.replicate (l.width - bs.length) (if zero then 48 else 32)
  if l.flags.contains '-' then bs ++ List.replicate fill.length 32
  else if zero then
    match bs with
    | 45 :: r => 45 :: fill ++ r
    | _ => fill ++ bs
  else fill ++ bs

/-- The number an argument stands for, and whether it is one. -/
def number (s : String) : Int × Bool :=
  match s.toList with
  | '\'' :: c :: _ => (c.toNat, true)
  | '"' :: c :: _ => (c.toNat, true)
  | '-' :: r =>
      match Arithmetic.numberOf r with
      | some n => (-n, true)
      | none => (-((Arithmetic.numberOf (r.takeWhile isDigit)).getD 0), false)
  | cs =>
      let r := if cs.head? = some '+' then cs.tail else cs
      match Arithmetic.numberOf r with
      | some n => (n, true)
      | none => ((Arithmetic.numberOf (r.takeWhile isDigit)).getD 0, cs.isEmpty)

/-- A number in digits of some base. -/
def digits (base : Nat) (n : Nat) : List UInt8 := utf8Bytes (Nat.toDigits base n)

/-- A number as a conversion writes it. -/
def Layout.number (l : Layout) (c : Char) (n : Int) : List UInt8 :=
  let m : Nat := if n < 0 ∧ c != 'd' ∧ c != 'i' then (maxWord64 + 1 + n).toNat else n.natAbs
  let ds := match c with
    | 'x' => digits 16 m
    | 'X' => (Nat.toDigits 16 m).flatMap fun c => charBytes c.toUpper
    | 'o' => digits 8 m
    | _ => digits 10 m
  let ds := List.replicate ((l.precision.getD 0) - ds.length) 48 ++ ds
  let sign : List UInt8 :=
    if n < 0 ∧ (c == 'd' || c == 'i') then [45]
    else if l.flags.contains '+' ∧ (c == 'd' || c == 'i') then [43]
    else []
  l.pad (sign ++ ds) (l.flags.contains '0' && !l.flags.contains '-' && l.precision.isNone)

/-- What a pass through a format comes to. -/
structure Printed where
  /-- The bytes. -/
  bytes : List UInt8
  /-- The arguments left. -/
  left : List String
  /-- Some argument was taken. -/
  took : Bool
  /-- The format asks to stop. -/
  stop : Bool
  /-- The complaints. -/
  complaints : List String

/-- Puts bytes in front. -/
def Printed.after (p : Printed) (bs : List UInt8) : Printed := { p with bytes := bs ++ p.bytes }

/-- One pass through a format. -/
def pass : (fuel : Nat) → List Char → List String → Printed
  | 0, _, args => ⟨[], args, false, false, []⟩
  | _, [], args => ⟨[], args, false, false, []⟩
  | _, '\\' :: 'c' :: _, args => ⟨[], args, false, true, []⟩
  | fuel + 1, '\\' :: r, args =>
      let (b, r) := escape r
      (pass fuel r args).after b
  | fuel + 1, '%' :: '%' :: r, args => (pass fuel r args).after [37]
  | fuel + 1, '%' :: r, args =>
      let isFlag (c : Char) : Bool := "-+ 0#".contains c
      let flags := r.takeWhile isFlag
      let r := r.dropWhile isFlag
      let width := (readNat? 10 (r.takeWhile isDigit)).getD 0
      let r := r.dropWhile isDigit
      let (precision, r) := match r with
        | '.' :: r => (some ((readNat? 10 (r.takeWhile isDigit)).getD 0), r.dropWhile isDigit)
        | r => (none, r)
      let l : Layout := ⟨flags, width, precision⟩
      match r with
      | [] => ⟨[], args, false, true, ["missing format character"]⟩
      | c :: r =>
          let arg := args.headD ""
          let rest := pass fuel r args.tail
          let rest := { rest with took := rest.took || !args.isEmpty }
          let cut (bs : List UInt8) : List UInt8 := match precision with
            | some n => bs.take n
            | none => bs
          if c = 's' then rest.after (l.pad (cut (utf8Bytes arg.toList)) false)
          else if c = 'c' then rest.after (l.pad ((utf8Bytes arg.toList).take 1) false)
          else if c = 'b' then
            let (bs, stop) := unescaped (arg.length + 1) arg.toList
            if stop then ⟨l.pad (cut bs) false, [], true, true, []⟩
            else rest.after (l.pad (cut bs) false)
          else if "diuxXo".contains c then
            let (n, good) := number arg
            let rest := if good then rest
              else
                { rest with complaints := (arg ++ ": expected numeric value") :: rest.complaints }
            rest.after (l.number c n)
          else ⟨[], args, false, true, ["%" ++ String.singleton c ++ ": invalid directive"]⟩
  | fuel + 1, c :: r, args => (pass fuel r args).after (charBytes c)

/-- Writes its arguments by a format, again and again until none is left. -/
def printAll (format : List Char) : (fuel : Nat) → List String → List UInt8 × List String
  | 0, _ => ([], [])
  | fuel + 1, args =>
      let p := pass (format.length + 1) format args
      if p.stop || p.left.isEmpty || !p.took then (p.bytes, p.complaints)
      else
        let (bs, cs) := printAll format fuel p.left
        (p.bytes ++ bs, p.complaints ++ cs)

/-- Writes by a format. -/
def printf : Tool := fun args s =>
  match args with
  | [] => s.refuse (s.name ++ ": 1: printf: usage: printf format [arg ...]") 2
  | "--" :: [] => s.refuse (s.name ++ ": 1: printf: usage: printf format [arg ...]") 2
  | format :: rest =>
      let (format, rest) := if format = "--" then (rest.headD "", rest.tail) else (format, rest)
      let (bs, complaints) := printAll format.toList (rest.length + 1) rest
      let s := complaints.foldl (fun s c => s.complain (s.name ++ ": 1: printf: " ++ c))
        (s.writeBytes bs)
      s.ending (if complaints.isEmpty then 0 else 1)

/-! ## Reading -/

/-- What a file cannot be read for. -/
def readFile (s : Session) (path : String) : Except String (List UInt8) :=
  if path = "/dev/null" then .ok []
  else
    match s.files.find? (s.place path) with
    | some (.file bs) => if path.endsWith "/" then .error "Not a directory" else .ok bs
    | some .folder => .error "Is a directory"
    | none => .error "No such file or directory"

/-- The input and the session without it. -/
def takeInput (s : Session) : List UInt8 × Session := (s.input, { s with input := [] })

/-- What a tool says of a file that it cannot read. -/
def unreadable (tool file reason : String) : String :=
  if tool = "head" ∨ tool = "tail" then
    if reason = "Is a directory" then tool ++ ": error reading '" ++ file ++ "': " ++ reason
    else tool ++ ": cannot open '" ++ file ++ "' for reading: " ++ reason
  else if tool = "sort" then
    if reason = "Is a directory" then "sort: read failed: " ++ file ++ ": " ++ reason
    else "sort: cannot read: " ++ file ++ ": " ++ reason
  else tool ++ ": " ++ file ++ ": " ++ reason

/-- The contents of files, or the input if there is none, each with its name, after complaints about
those that cannot be read. -/
def contents (tool : String) : List String → Session → List (String × List UInt8) × Bool × Session
  | [], s => ([], true, s)
  | f :: fs, s =>
      if f = "-" then
        let (bs, s) := takeInput s
        let (rest, good, s) := contents tool fs s
        (("", bs) :: rest, good, s)
      else
        match readFile s f with
        | .ok bs =>
            let (rest, good, s) := contents tool fs s
            ((f, bs) :: rest, good, s)
        | .error e =>
            let (rest, _, s) := contents tool fs (s.complain (unreadable tool f e))
            (rest, false, s)

/-- The files among arguments, or the input. -/
def sources (tool : String) (args : List String) (s : Session) :
    List (String × List UInt8) × Bool × Session :=
  contents tool (if args.isEmpty then ["-"] else args) s

/-- Writes files one after the other. -/
def cat : Tool := fun args s =>
  let (cs, good, s) := sources "cat" (args.filter (· != "-u")) s
  (s.writeBytes (cs.flatMap (·.2))).ending (if good then 0 else 1)

/-- The lines of bytes, each with its end. -/
def linesOf (bs : List UInt8) : List (List UInt8) :=
  bs.foldr (fun b ls =>
    if b = 10 then [b] :: ls
    else
      match ls with
      | [] => [[b]]
      | l :: ls => (b :: l) :: ls) []

/-- A count among the options `-n` and `-c`, and the other arguments. -/
def countOption : List String → Option (Char × String) × List String
  | "-n" :: n :: rest => (some ('n', n), rest)
  | "-c" :: n :: rest => (some ('c', n), rest)
  | a :: rest =>
      match a.toList with
      | '-' :: 'n' :: n => (some ('n', String.ofList n), rest)
      | '-' :: 'c' :: n => (some ('c', String.ofList n), rest)
      | '-' :: d :: n =>
          if isDigit d then (some ('n', String.ofList (d :: n)), rest) else (none, a :: rest)
      | _ => (none, a :: rest)
  | [] => (none, [])

/-- The first lines or bytes of its input. -/
def head : Tool := fun args s =>
  let (option, files) := countOption args
  let (unit, count) := option.getD ('n', "10")
  let n := (count.toNat?).getD 10
  if unit = 'c' ∧ files = ["/dev/zero"] then (s.writeBytes (List.replicate n 0)).ending 0 else
  let (cs, good, s) := sources "head" files s
  let part (bs : List UInt8) := if unit = 'c' then bs.take n else ((linesOf bs).take n).flatten
  (s.writeBytes (cs.flatMap fun c => part c.2)).ending (if good then 0 else 1)

/-- The last lines or bytes of its input. -/
def tail : Tool := fun args s =>
  let (option, files) := countOption args
  let (unit, count) := option.getD ('n', "10")
  let (cs, good, s) := sources "tail" files s
  let part {α : Type} (xs : List α) : List α := match count.toList with
    | '+' :: r => xs.drop (((readNat? 10 r).getD 1) - 1)
    | r => xs.drop (xs.length - (readNat? 10 (r.dropWhile (· == '-'))).getD 10)
  let cut (bs : List UInt8) := if unit = 'c' then part bs else (part (linesOf bs)).flatten
  (s.writeBytes (cs.flatMap fun c => cut c.2)).ending (if good then 0 else 1)

/-- The number of words. -/
def wordCount (bs : List UInt8) : Nat :=
  let isGap (b : UInt8) : Bool := b == 32 || (9 ≤ b && b ≤ 13)
  (bs.foldl
    (fun acc b => if isGap b then (acc.1, true) else (if acc.2 then acc.1 + 1 else acc.1, false))
    (0, true)).1

/-- A number with blanks in front, up to a width. -/
def column (width n : Nat) : String :=
  let t := toString n
  String.ofList (List.replicate (width - t.length) ' ') ++ t

/-- Counts lines, words and bytes. -/
def wc : Tool := fun args s =>
  let flags := (args.filter fun a => a.startsWith "-" && a != "-").flatMap fun a => a.toList.tail
  let files := args.filter fun a => !(a.startsWith "-" && a != "-")
  let (cs, good, s) := sources "wc" files s
  let flags := if flags.isEmpty then ['l', 'w', 'c'] else flags
  let counts (bs : List UInt8) : List Nat :=
    (if flags.contains 'l' then [bs.count 10] else []) ++
      (if flags.contains 'w' then [wordCount bs] else []) ++
      (if flags.contains 'm' then [(decodeLenient bs).length] else []) ++
      (if flags.contains 'c' then [bs.length] else [])
  let isPlural := 1 < (counts []).length
  let total := cs.foldl (fun n c => n + c.2.length) 0
  let width := if !isPlural && cs.length ≤ 1 then 1
    else if files.isEmpty || files.contains "-" then 7
    else (toString total).length
  let row (name : String) (bs : List UInt8) : String :=
    String.intercalate " " ((counts bs).map (column width)) ++
      (if name.isEmpty then "" else " " ++ name) ++ "\n"
  let s := cs.foldl (fun s c => s.write (row c.1 c.2)) s
  let s := if 1 < files.length then s.write (row "total" (cs.flatMap (·.2))) else s
  s.ending (if good then 0 else 1)

/-! ## Replacing characters -/

/-- The characters that a set of `tr` names. -/
def setOf : (fuel : Nat) → List Char → List Char
  | 0, _ => []
  | _, [] => []
  | fuel + 1, cs =>
      let span (a b : Char) : List Char :=
        (List.range (b.toNat + 1 - a.toNat)).map fun i => Char.ofNat (a.toNat + i)
      let named (name : String) (members : List Char) : Option (List Char) :=
        (dropLead name.toList cs).map fun r => members ++ setOf fuel r
      let classes := [named "[:lower:]" (span 'a' 'z'), named "[:upper:]" (span 'A' 'Z'),
        named "[:digit:]" (span '0' '9'),
        named "[:alpha:]" (span 'A' 'Z' ++ span 'a' 'z'),
        named "[:alnum:]" (span '0' '9' ++ span 'A' 'Z' ++ span 'a' 'z'),
        named "[:space:]" (span '\t' '\r' ++ [' ']), named "[:blank:]" ['\t', ' ']]
      match classes.findSome? id with
      | some members => members
      | none =>
          match cs with
          | '\\' :: r =>
              let (b, r) := escape r
              decodeLenient b ++ setOf fuel r
          | a :: '-' :: b :: r => span a b ++ setOf fuel r
          | a :: r => a :: setOf fuel r
          | [] => []

/-- Without repetitions of the characters of a set. -/
def squeeze (among : List Char) : List Char → List Char
  | a :: b :: r =>
      if a = b ∧ among.contains a then squeeze among (b :: r) else a :: squeeze among (b :: r)
  | cs => cs

/-- Replaces, deletes or squeezes characters of its input. -/
def tr : Tool := fun args s =>
  let flags := (args.takeWhile (·.startsWith "-")).flatMap fun a => a.toList.tail
  let sets := (args.dropWhile (·.startsWith "-")).map fun a => setOf (a.length + 1) a.toList
  let (bs, s) := takeInput s
  let cs := decodeLenient bs
  let first := sets.headD []
  let second := (sets[1]?).getD []
  let isIn (c : Char) : Bool := first.contains c != (flags.contains 'c' || flags.contains 'C')
  let put (c : Char) : Char :=
    if !isIn c then c
    else if flags.contains 'c' || flags.contains 'C' then second.getLast?.getD c
    else
      match second[first.idxOf c]? with
      | some d => d
      | none => second.getLast?.getD c
  let out := if flags.contains 'd' then cs.filter fun c => !isIn c
    else if second.isEmpty then cs
    else cs.map put
  let squeezed := if second.isEmpty then first else second
  let out := if flags.contains 's' then squeeze squeezed out else out
  (s.writeBytes (utf8Bytes out)).ending 0

/-! ## Files -/

/-- Lists folders and files. -/
def ls : Tool := fun args s =>
  let flags := (args.filter fun a => a.startsWith "-" && a != "-").flatMap fun a => a.toList.tail
  let paths := args.filter fun a => !(a.startsWith "-" && a != "-")
  let paths := if paths.isEmpty then ["."] else paths
  let shown (names : List String) : List String :=
    if flags.contains 'a' then "." :: ".." :: names
    else if flags.contains 'A' then names
    else names.filter fun n => !n.startsWith "."
  let missing := paths.filter fun p => (s.files.find? (s.place p)).isNone
  let files := (paths.filter fun p =>
    match s.files.find? (s.place p) with
    | some (.file _) => true
    | some .folder => flags.contains 'd'
    | none => false).mergeSort fun a b => decide (a ≤ b)
  let listed (p : String) : Bool := s.files.isFolder (s.place p) && !flags.contains 'd'
  let folders := (paths.filter listed).mergeSort
    fun a b => decide (a ≤ b)
  let s := missing.foldl
    (fun s p => s.complain ("ls: cannot access '" ++ p ++ "': No such file or directory")) s
  let listing (p : String) : String :=
    String.join ((shown (s.files.names (s.place p))).map (· ++ "\n"))
  let blocks := (if files.isEmpty then [] else [String.join (files.map (· ++ "\n"))]) ++
    folders.map fun p =>
      if paths.length ≤ 1 then listing p else p ++ ":\n" ++ listing p
  (s.write (String.intercalate "\n" blocks)).ending (if missing.isEmpty then 0 else 2)

/-- Makes folders. -/
def mkdir : Tool := fun args s =>
  let deep := args.contains "-p"
  (args.filter fun a => !a.startsWith "-").foldl (fun (acc : Flow × Session) a =>
    let s := acc.2
    let p := s.place a
    if deep then (.next, { s with files := s.files.addFolder p })
    else if (s.files.find? p).isSome then
      s.refuse ("mkdir: cannot create directory '" ++ a ++ "': File exists") 1
    else if !s.files.isFolder p.dropLast then
      s.refuse ("mkdir: cannot create directory '" ++ a ++ "': No such file or directory") 1
    else (.next, { s with files := s.files.put p .folder })) (s.ending 0)

/-- Removes files, and folders if asked to. -/
def rm : Tool := fun args s =>
  let flags := (args.filter (·.startsWith "-")).flatMap fun a => a.toList.tail
  (args.filter fun a => !a.startsWith "-").foldl (fun (acc : Flow × Session) a =>
    let s := acc.2
    let p := s.place a
    match s.files.find? p with
    | none =>
        if flags.contains 'f' then (.next, s)
        else s.refuse ("rm: cannot remove '" ++ a ++ "': No such file or directory") 1
    | some .folder =>
        if flags.contains 'r' || flags.contains 'R' then
          (.next, { s with files := s.files.remove p })
        else s.refuse ("rm: cannot remove '" ++ a ++ "': Is a directory") 1
    | some (.file _) => (.next, { s with files := s.files.remove p })) (s.ending 0)

/-- Makes empty files where there are none. -/
def touch : Tool := fun args s =>
  args.foldl (fun (acc : Flow × Session) a =>
    let s := acc.2
    let p := s.place a
    if (s.files.find? p).isSome then (.next, s)
    else if !s.files.isFolder p.dropLast then
      s.refuse ("touch: cannot touch '" ++ a ++ "': No such file or directory") 1
    else (.next, { s with files := s.files.put p (.file []) })) (s.ending 0)

/-- The last part of a path, without an ending. -/
def basename : Tool := fun args s =>
  match args with
  | [] => s.refuse "basename: missing operand\nTry 'basename --help' for more information." 1
  | p :: more =>
      let name := ((Files.parts p).filter (· != "")).getLast?.getD (if p.isEmpty then "" else "/")
      let ending := more.headD ""
      let name := if ending != "" && name != ending && name.endsWith ending
        then String.ofList (name.toList.take (name.length - ending.length)) else name
      (s.write (name ++ "\n")).ending 0

/-- A path without its last part. -/
def dirname : Tool := fun args s =>
  match args with
  | [] => s.refuse "dirname: missing operand\nTry 'dirname --help' for more information." 1
  | p :: _ =>
      let parts := ((Files.parts p).filter (· != "")).dropLast
      let t := String.intercalate "/" parts
      let t := if p.startsWith "/" then "/" ++ t else if t.isEmpty then "." else t
      (s.write (t ++ "\n")).ending 0

/-- The place that a copy goes to: into a folder, or to the path itself. -/
def destination (s : Session) (source target : String) : FilePlace :=
  let p := s.place target
  if s.files.isFolder p then p ++ ((s.place source).getLast?).toList else p

/-- Copies a file, or moves it. -/
def transfer (tool : String) (moves : Bool) : Tool := fun args s =>
  match args.filter (!·.startsWith "-") with
  | [source, target] =>
      let p := s.place source
      let q := destination s source target
      match s.files.find? p with
      | some (.file bs) =>
          if s.files.isFolder q.dropLast then
            let fs := s.files.put q (.file bs)
            { s with files := if moves && p != q then fs.remove p else fs }.ending 0
          else
            s.refuse (tool ++ ": cannot " ++ (if moves then "move '" ++ source ++ "' to '"
              else "create regular file '") ++ target ++ "': No such file or directory") 1
      | some .folder =>
          if moves then
            let inside := s.files.entries.filter fun e => p.isPrefixOf e.1
            let fs := inside.foldl (fun fs e => fs.put (q ++ e.1.drop p.length) e.2)
              (s.files.remove p)
            { s with files := fs }.ending 0
          else s.refuse ("cp: -r not specified; omitting directory '" ++ source ++ "'") 1
      | none =>
          s.refuse (tool ++ ": cannot stat '" ++ source ++ "': No such file or directory") 1
  | [source] =>
      s.refuse (tool ++ ": missing destination file operand after '" ++ source ++ "'\nTry '" ++
        tool ++ " --help' for more information.") 1
  | _ =>
      s.refuse (tool ++ ": missing file operand\nTry '" ++ tool ++
        " --help' for more information.") 1

/-- Removes empty folders. -/
def rmdir : Tool := fun args s =>
  let failed (s : Session) (a reason : String) : Session :=
    (s.complain ("rmdir: failed to remove '" ++ a ++ "': " ++ reason)).ending 1 |>.2
  let s := args.foldl (fun (s : Session) a =>
    let p := s.place a
    match s.files.find? p with
    | some .folder =>
        if (s.files.names p).isEmpty then { s with files := s.files.remove p }
        else failed s a "Directory not empty"
    | some (.file _) => failed s a "Not a directory"
    | none => failed s a "No such file or directory") { s with status := 0 }
  (.next, s)

/-- Writes its input, and to files as well. -/
def tee : Tool := fun args s =>
  let (bs, s) := takeInput s
  let s := s.writeBytes bs
  let appends := args.contains "-a"
  let s := (args.filter (!·.startsWith "-")).foldl (fun (s : Session) a =>
    let p := s.place a
    let before := match s.files.find? p with
      | some (.file b) => if appends then b else []
      | _ => []
    { s with files := s.files.put p (.file (before ++ bs)) }) s
  s.ending 0

/-! ## Lines -/

/-- A line without its end. -/
def bare (l : List UInt8) : List UInt8 := if l.getLast? = some 10 then l.dropLast else l

/-- The number at the start of a line. -/
def leadingNumber (l : List UInt8) : Int :=
  let cs := Arithmetic.skip (decodeLenient l)
  match cs with
  | '-' :: r => -((readNat? 10 (r.takeWhile isDigit)).getD 0 : Nat)
  | r => ((readNat? 10 (r.takeWhile isDigit)).getD 0 : Nat)

/-- One line is not after another, byte by byte. -/
def notAfter : List UInt8 → List UInt8 → Bool
  | [], _ => true
  | _ :: _, [] => false
  | a :: as, b :: bs => a < b || (a == b && notAfter as bs)

/-- Without lines that repeat the one before. -/
def distinct : List (List UInt8) → List (List UInt8)
  | a :: b :: ls => if a = b then distinct (b :: ls) else a :: distinct (b :: ls)
  | ls => ls

/-- Sorts lines. -/
def sort : Tool := fun args s =>
  let flags := (args.filter fun a => a.startsWith "-" && a != "-").flatMap fun a => a.toList.tail
  let (cs, good, s) := sources "sort" (args.filter fun a => !(a.startsWith "-" && a != "-")) s
  let ls := (cs.flatMap fun c => linesOf c.2).map bare
  let before (a b : List UInt8) : Bool :=
    if flags.contains 'n' then
      leadingNumber a < leadingNumber b || (leadingNumber a == leadingNumber b && notAfter a b)
    else notAfter a b
  let ls := ls.mergeSort before
  let ls := if flags.contains 'u' then distinct ls else ls
  let ls := if flags.contains 'r' then ls.reverse else ls
  (s.writeBytes (ls.flatMap (· ++ [10]))).ending (if good then 0 else 2)

/-- Drops lines that repeat the one before. -/
def uniq : Tool := fun args s =>
  let (cs, good, s) := sources "uniq" (args.filter fun a => !(a.startsWith "-" && a != "-")) s
  let ls := distinct ((cs.flatMap fun c => linesOf c.2).map bare)
  (s.writeBytes (ls.flatMap (· ++ [10]))).ending (if good then 0 else 1)

/-- Writes numbers in order. -/
def seq : Tool := fun args s =>
  let ns := args.map fun a => (number a).1
  let (first, step, last) := match ns with
    | [l] => (1, 1, l)
    | [f, l] => (f, 1, l)
    | [f, i, l] => (f, i, l)
    | _ => (1, 1, 0)
  let count := if step = 0 then 0 else ((last - first).fdiv step + 1).toNat
  (s.write (String.join ((List.range (min count 100000)).map fun i : Nat =>
    toString (first + step * (i : Int)) ++ "\n"))).ending 0

/-! ## Time -/

/-- The milliseconds that a text of seconds stands for. -/
def milliseconds? (t : String) : Option Nat :=
  let cs := t.toList
  let whole := cs.takeWhile isDigit
  let rest := cs.dropWhile isDigit
  let (fraction, rest) := match rest with
    | '.' :: r => (r.takeWhile isDigit, r.dropWhile isDigit)
    | r => ([], r)
  let unit : Option Nat := match rest with
    | [] => some 1
    | ['s'] => some 1
    | ['m'] => some 60
    | ['h'] => some 3600
    | ['d'] => some 86400
    | _ => none
  if whole.isEmpty && fraction.isEmpty then none
  else
    unit.map fun u =>
      let n := (natOfDigits 10 0 (whole ++ (fraction ++ ['0', '0', '0']).take 3)).getD 0
      n * u

/-- Lets time pass. -/
def sleep : Tool := fun args s =>
  if args.isEmpty then
    s.refuse "sleep: missing operand\nTry 'sleep --help' for more information." 1
  else if args = ["infinity"] then (.endless, s)
  else
    match args.find? fun a => (milliseconds? a).isNone with
    | some a =>
        s.refuse ("sleep: invalid time interval '" ++ a ++
          "'\nTry 'sleep --help' for more information.") 1
    | none =>
        { s with elapsed := s.elapsed + (args.filterMap milliseconds?).foldl (· + ·) 0 }.ending 0

/-! ## Conditions -/

/-- A condition of one operand. -/
def unary (s : Session) (op a : String) : Option Bool :=
  let node := s.files.find? (s.place a)
  match op with
  | "-n" => some (a != "")
  | "-z" => some (a == "")
  | "-e" => some (node.isSome || a == "/dev/null")
  | "-f" => some (match node with
      | some (.file _) => true
      | _ => false)
  | "-d" => some (node == some .folder)
  | "-r" => some (node.isSome || a == "/dev/null")
  | "-w" => some (node.isSome || a == "/dev/null")
  | "-x" => some node.isSome
  | "-s" => some (match node with
      | some (.file bs) => !bs.isEmpty
      | some .folder => true
      | none => false)
  | "-h" => some false
  | "-L" => some false
  | "-t" => some false
  | _ => none

/-- A condition of two operands.  Nothing if one is no number where both should be. -/
def binary (op a b : String) : Option (Except String Bool) :=
  let compare (f : Int → Int → Bool) : Option (Except String Bool) :=
    let trimmed (t : String) := Text.trim t
    let good (t : String) : Bool := (readSigned? 10 maxInt64 (trimmed t).toList).isSome
    if !good a then some (.error a)
    else if !good b then some (.error b)
    else some (.ok (f ((readSigned? 10 maxInt64 (trimmed a).toList).getD 0)
      ((readSigned? 10 maxInt64 (trimmed b).toList).getD 0)))
  match op with
  | "=" => some (.ok (a == b))
  | "==" => some (.ok (a == b))
  | "!=" => some (.ok (a != b))
  | "<" => some (.ok (decide (a < b)))
  | ">" => some (.ok (decide (b < a)))
  | "-eq" => compare (· == ·)
  | "-ne" => compare (· != ·)
  | "-lt" => compare fun x y => decide (x < y)
  | "-le" => compare fun x y => decide (x ≤ y)
  | "-gt" => compare fun x y => decide (y < x)
  | "-ge" => compare fun x y => decide (y ≤ x)
  | _ => none

/-- The value of a condition, or what is wrong with it. -/
def condition (s : Session) : (fuel : Nat) → List String → Except String Bool
  | 0, _ => .ok false
  | fuel + 1, args =>
      match args with
      | [] => .ok false
      | [a] => .ok (a != "")
      | ["!", a] => .ok (a == "")
      | [op, a] =>
          match unary s op a with
          | some b => .ok b
          | none => .error (op ++ ": unexpected operator")
      | [a, op, b] =>
          match binary op a b with
          | some (.ok v) => .ok v
          | some (.error w) => .error ("Illegal number: " ++ w)
          | none =>
              if a = "!" then (condition s fuel [op, b]).map (!·)
              else if op = "-a" then .ok (a != "" && b != "")
              else if op = "-o" then .ok (a != "" || b != "")
              else if a = "(" ∧ b = ")" then .ok (op != "")
              else .error (op ++ ": unexpected operator")
      | "!" :: rest => (condition s fuel rest).map (!·)
      | args =>
          match args.idxOf? "-o" with
          | some i => do
              let l ← condition s fuel (args.take i)
              let r ← condition s fuel (args.drop (i + 1))
              .ok (l || r)
          | none =>
              match args.idxOf? "-a" with
              | some i => do
                  let l ← condition s fuel (args.take i)
                  let r ← condition s fuel (args.drop (i + 1))
                  .ok (l && r)
              | none => .error ((args[1]?).getD "" ++ ": unexpected operator")

/-- Tests a condition. -/
def test (name : String) : Tool := fun args s =>
  match condition s (args.length + 1) args with
  | .ok true => s.ending 0
  | .ok false => s.ending 1
  | .error e => s.refuse (s.name ++ ": 1: " ++ name ++ ": " ++ e) 2

/-- Tests a condition that a bracket closes. -/
def bracketTest : Tool := fun args s =>
  if args.getLast? = some "]" then test "[" args.dropLast s
  else s.refuse (s.name ++ ": 1: [: missing ]") 2

/-! ## By name -/

/-- Ends with an exit code and does nothing else. -/
def idle (code : Nat) : Tool := fun _ s => s.ending code

/-- The tools. -/
def all : List (String × Tool) :=
  [("echo", echo), ("printf", printf), ("true", idle 0), ("false", idle 1), (":", idle 0),
    ("cat", cat), ("head", head), ("tail", tail), ("wc", wc), ("tr", tr), ("ls", ls),
    ("mkdir", mkdir), ("rm", rm), ("touch", touch), ("basename", basename), ("dirname", dirname),
    ("sort", sort), ("uniq", uniq), ("seq", seq), ("sleep", sleep), ("test", test "test"),
    ("[", bracketTest), ("cp", transfer "cp" false), ("mv", transfer "mv" true), ("rmdir", rmdir),
    ("tee", tee), ("chmod", idle 0), ("sync", idle 0)]

/-- The tool of a name. -/
def find? (name : String) : Option Tool := all.lookup name

end Tool
end Runbook.Shell
