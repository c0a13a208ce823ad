import Relay.Files.Disk
import Relay.Shell.Arithmetic

/-!
# Utilities

The small programs that scripts call.  Each is a function of its arguments, its input and the
disk; it gives what it writes, a status, what it leaves of the input, and the disk.
-/

namespace Relay.Shell

open Files (Disk Failure Entry)

/-- What a utility starts from. -/
structure UtilityCall where
  arguments : List Chars
  input : Bytes
  disk : Disk

/-- What a utility did. -/
structure UtilityRun where
  /-- What it wrote, in order; `true` marks the error stream. -/
  written : List (Bool × Chars)
  status : Nat
  input : Bytes
  disk : Disk

namespace UtilityCall

/-- The utility did nothing but end with a status. -/
def finish (k : UtilityCall) (status : Nat) : UtilityRun := ⟨[], status, k.input, k.disk⟩

/-- The utility wrote a text. -/
def print (k : UtilityCall) (cs : Chars) : UtilityRun :=
  ⟨if cs = [] then [] else [(false, cs)], 0, k.input, k.disk⟩

/-- The utility complained. -/
def complain (k : UtilityCall) (status : Nat) (message : Chars) : UtilityRun :=
  ⟨[(true, message ++ ['\n'])], status, k.input, k.disk⟩

end UtilityCall

/-- The path of a text. -/
def pathOf (cs : Chars) : Path := ⟨toBytes cs⟩

/-! ## Echo and printf -/

/-- The value of octal digits. -/
def octal (ds : Chars) : Char := Char.ofNat (ds.foldl (fun n c => n * 8 + (c.toNat - 48)) 0 % 256)

/-- An octal digit. -/
def isOctal (c : Char) : Bool := '0' ≤ c && c ≤ '7'

/-- The character of a one-letter escape. -/
def letterEscape? (c : Char) : Option Char :=
  if c = 'a' then some (Char.ofNat 7)
  else if c = 'b' then some (Char.ofNat 8)
  else if c = 'f' then some (Char.ofNat 12)
  else if c = 'n' then some '\n'
  else if c = 'r' then some '\r'
  else if c = 't' then some '\t'
  else if c = 'v' then some (Char.ofNat 11)
  else if c = '\\' then some '\\'
  else none

/-- A text with its escapes replaced, and whether `\c` ended it.  Octal escapes start with a zero
if `zero` says so. -/
def unescape (zero : Bool) : Nat → Chars → Chars × Bool
  | 0, _ => ([], false)
  | _ + 1, [] => ([], false)
  | fuel + 1, '\\' :: c :: cs =>
    match letterEscape? c with
    | some x => let (r, ended) := unescape zero fuel cs; (x :: r, ended)
    | none =>
      if c = 'c' then ([], true)
      else if c = '0' ∧ zero then
        let ds := (cs.take 3).takeWhile isOctal
        let (r, ended) := unescape zero fuel (cs.drop ds.length)
        (octal ds :: r, ended)
      else if isOctal c ∧ !zero then
        let ds := ((c :: cs).take 3).takeWhile isOctal
        let (r, ended) := unescape zero fuel ((c :: cs).drop ds.length)
        (octal ds :: r, ended)
      else let (r, ended) := unescape zero fuel cs; ('\\' :: c :: r, ended)
  | fuel + 1, c :: cs => let (r, ended) := unescape zero fuel cs; (c :: r, ended)

/-- The texts with a blank between neighbours. -/
def joinBlank : List Chars → Chars
  | [] => []
  | [a] => a
  | a :: as => a ++ ' ' :: joinBlank as

/-- What `echo` writes, with the escapes replaced. -/
def echoText (args : List Chars) : Chars :=
  match args with
  | ['-', 'n'] :: rest =>
    let text := joinBlank rest
    (unescape true (text.length + 1) text).1
  | args =>
    let text := joinBlank args
    let (r, ended) := unescape true (text.length + 1) text
    if ended then r else r ++ ['\n']

/-- What `echo` writes, with everything as it is. -/
def plainEchoText (args : List Chars) : Chars :=
  match args with
  | ['-', 'n'] :: rest => joinBlank rest
  | ['-', 'e'] :: rest =>
    let text := joinBlank rest
    let (r, ended) := unescape true (text.length + 1) text
    if ended then r else r ++ ['\n']
  | args => joinBlank args ++ ['\n']

/-- A conversion of a format. -/
structure Conversion where
  left : Bool
  zeros : Bool
  plus : Bool
  blank : Bool
  alternate : Bool
  width : Nat
  precision : Option Nat
  letter : Char

/-- The number that digits write. -/
def natOf (ds : Chars) : Nat := ds.foldl (fun n c => n * 10 + (c.toNat - 48)) 0

/-- Reads a conversion after its percent sign; a star takes its number from the arguments. -/
def conversion? (cs : Chars) (args : List Chars) :
    Option (Conversion × Chars × List Chars) :=
  let flags := cs.takeWhile fun c => "-+ 0#".toList.contains c
  let cs := cs.drop flags.length
  let (width, cs, args) :=
    match cs with
    | '*' :: cs => (natOf (args.headD []), cs, args.tail)
    | cs =>
      let ds := cs.takeWhile Char.isDigit
      (natOf ds, cs.drop ds.length, args)
  let (precision, cs, args) :=
    match cs with
    | '.' :: '*' :: cs => (some (natOf (args.headD [])), cs, args.tail)
    | '.' :: cs =>
      let ds := cs.takeWhile Char.isDigit
      (some (natOf ds), cs.drop ds.length, args)
    | cs => (none, cs, args)
  match cs with
  | [] => none
  | c :: cs =>
    some (⟨flags.contains '-', flags.contains '0', flags.contains '+', flags.contains ' ',
      flags.contains '#', width, precision, c⟩, cs, args)

/-- A text filled with blanks to its width. -/
def Conversion.fill (k : Conversion) (cs : Chars) : Chars :=
  let pad := List.replicate (k.width - cs.length) ' '
  if k.left then cs ++ pad else pad ++ cs

/-- Digits with their sign, filled with zeros or blanks to the width. -/
def Conversion.fillNumber (k : Conversion) (sign digits : Chars) : Chars :=
  let digits :=
    match k.precision with
    | some p => List.replicate (p - digits.length) '0' ++ digits
    | none => digits
  if k.zeros && !k.left && k.precision.isNone then
    sign ++ List.replicate (k.width - sign.length - digits.length) '0' ++ digits
  else k.fill (sign ++ digits)

/-- The integer that an argument writes; a quote gives the code of the next character. -/
def argumentNumber (cs : Chars) : Int :=
  match cs with
  | '\'' :: c :: _ => c.toNat
  | '"' :: c :: _ => c.toNat
  | '-' :: ds => (numeral? ds).elim 0 fun n => -n
  | '+' :: ds => (numeral? ds).getD 0
  | ds => (numeral? ds).getD 0

/-- What a conversion writes for an argument, and whether it ends the output. -/
def Conversion.write (k : Conversion) (arg : Chars) : Chars × Bool :=
  let cut (cs : Chars) : Chars :=
    match k.precision with
    | some p => cs.take p
    | none => cs
  if k.letter = 's' then (k.fill (cut arg), false)
  else if k.letter = 'b' then
    let (text, ended) := unescape true (arg.length + 1) arg
    (k.fill (cut text), ended)
  else if k.letter = 'c' then (k.fill (arg.take 1), false)
  else if k.letter = 'd' ∨ k.letter = 'i' then
    let n := argumentNumber arg
    let sign := if n < 0 then ['-'] else if k.plus then ['+'] else if k.blank then [' '] else []
    (k.fillNumber sign (Nat.toDigits 10 n.natAbs), false)
  else
    let n := (UInt64.ofInt (argumentNumber arg)).toNat
    if k.letter = 'u' then (k.fillNumber [] (Nat.toDigits 10 n), false)
    else if k.letter = 'o' then
      (k.fillNumber (if k.alternate then ['0'] else []) (Nat.toDigits 8 n), false)
    else if k.letter = 'x' then
      (k.fillNumber (if k.alternate ∧ n ≠ 0 then ['0', 'x'] else []) (Nat.toDigits 16 n), false)
    else if k.letter = 'X' then
      (k.fillNumber (if k.alternate ∧ n ≠ 0 then ['0', 'X'] else [])
        ((Nat.toDigits 16 n).map Char.toUpper), false)
    else ([], true)

/-- Writes a format once: the output, the arguments left, whether one was wanted, and whether the
output ended. -/
def formatOnce : Nat → Chars → List Chars → Chars × List Chars × Bool × Bool
  | 0, _, args => ([], args, false, false)
  | _ + 1, [], args => ([], args, false, false)
  | fuel + 1, '%' :: '%' :: cs, args =>
    let (r, rest) := formatOnce fuel cs args
    ('%' :: r, rest)
  | fuel + 1, '%' :: cs, args =>
    match conversion? cs args with
    | none => (['%'], args, false, true)
    | some (k, cs, args) =>
      let (text, ended) := k.write (args.headD [])
      if ended then (text, args.tail, true, true)
      else
        let (r, args, _, ended) := formatOnce fuel cs args.tail
        (text ++ r, args, true, ended)
  | fuel + 1, '\\' :: c :: cs, args =>
    match letterEscape? c with
    | some x => let (r, rest) := formatOnce fuel cs args; (x :: r, rest)
    | none =>
      if c = 'c' then ([], args, false, true)
      else if isOctal c then
        let ds := ((c :: cs).take 3).takeWhile isOctal
        let (r, rest) := formatOnce fuel ((c :: cs).drop ds.length) args
        (octal ds :: r, rest)
      else let (r, rest) := formatOnce fuel cs args; ('\\' :: c :: r, rest)
  | fuel + 1, c :: cs, args => let (r, rest) := formatOnce fuel cs args; (c :: r, rest)

/-- What `printf` writes: the format again and again until the arguments are used up. -/
def printfFrom (format : Chars) : Nat → List Chars → Chars
  | 0, _ => []
  | fuel + 1, args =>
    let (r, rest, wanted, ended) := formatOnce (format.length + 1) format args
    if ended || !wanted || rest.isEmpty then r else r ++ printfFrom format fuel rest

/-- What `printf` writes. -/
def printfText (format : Chars) (args : List Chars) : Chars :=
  printfFrom format (args.length + 1) args

/-! ## Conditions -/

/-- The entry that a path leads to. -/
def entryAt? (d : Disk) (cs : Chars) : Option Entry :=
  match d.stat (pathOf cs) with
  | .ok (_, e) => some e
  | .error _ => none

/-- A condition with one operand. -/
def unaryTest (d : Disk) (op a : Chars) : Option Bool :=
  match String.ofList op with
  | "-z" => some a.isEmpty
  | "-n" => some (!a.isEmpty)
  | "-e" | "-r" | "-w" => some (entryAt? d a).isSome
  | "-f" => some (match entryAt? d a with
      | some (.file _ _) | some (.program _) => true
      | _ => false)
  | "-d" => some (entryAt? d a == some .directory)
  | "-x" => some (match entryAt? d a with
      | some (.file _ x) => x
      | some .directory | some (.program _) => true
      | _ => false)
  | "-s" => some (match entryAt? d a with
      | some (.file content _) => !content.isEmpty
      | some .directory | some (.program _) => true
      | _ => false)
  | "-L" | "-h" => some (match d.tree.walk false d.cwd (pathOf a) with
      | .ok (.found _ (.link _)) => true
      | _ => false)
  | "-t" => some false
  | _ => none

/-- An integer operand. -/
def integer? (cs : Chars) : Option Int :=
  match cs.dropWhile (· == ' ') with
  | '-' :: ds => (Numeral.digits? ds).map fun n => -(n : Int)
  | '+' :: ds => (Numeral.digits? ds).map fun n => (n : Int)
  | ds => (Numeral.digits? ds).map fun n => (n : Int)

/-- A condition with two operands. -/
def binaryTest (op a b : Chars) : Option Bool :=
  let compare (f : Int → Int → Bool) : Option Bool := do return f (← integer? a) (← integer? b)
  match String.ofList op with
  | "=" => some (a == b)
  | "!=" => some (a != b)
  | "-eq" => compare (· == ·)
  | "-ne" => compare (· != ·)
  | "-lt" => compare fun x y => decide (x < y)
  | "-le" => compare fun x y => decide (x ≤ y)
  | "-gt" => compare fun x y => decide (y < x)
  | "-ge" => compare fun x y => decide (y ≤ x)
  | _ => none

/-- Whether conditions hold, joined by `-a` and `-o`. -/
def test? (d : Disk) : Nat → List Chars → Option Bool
  | 0, _ => none
  | _ + 1, [] => some false
  | _ + 1, [a] => some (!a.isEmpty)
  | fuel + 1, [op, a] => if op = ['!'] then (test? d fuel [a]).map (!·) else unaryTest d op a
  | fuel + 1, a :: op :: b :: rest =>
    match rest, binaryTest op a b with
    | [], some r => some r
    | ['-', 'a'] :: more, some r => (test? d fuel more).map (r && ·)
    | ['-', 'o'] :: more, some r => (test? d fuel more).map (r || ·)
    | _, _ =>
      if a = ['!'] then (test? d fuel (op :: b :: rest)).map (!·)
      else
        match unaryTest d a op, b :: rest with
        | some r, ['-', 'a'] :: more => (test? d fuel more).map (r && ·)
        | some r, ['-', 'o'] :: more => (test? d fuel more).map (r || ·)
        | _, _ => none

/-- The conditions that compare integers. -/
def integerTests : List Chars := ["-eq", "-ne", "-lt", "-le", "-gt", "-ge"].map String.toList

/-- What is wrong with conditions that mean nothing. -/
def testMistake : List Chars → Chars
  | [a, op, b] =>
    let isWrong (cs : Chars) : Bool := (integer? cs).isNone
    if integerTests.contains op && (isWrong a || isWrong b) then
      "Illegal number: ".toList ++ (if isWrong a then a else b)
    else a ++ ": unexpected operator".toList
  | args => args.headD [] ++ ": unexpected operator".toList

/-- The status of conditions, zero when they hold, and the complaint about conditions that mean
nothing. -/
def testStatus (d : Disk) (args : List Chars) : Nat × Option Chars :=
  match test? d (args.length + 1) args with
  | some true => (0, none)
  | some false => (1, none)
  | none => (2, some (testMistake args))

/-! ## Files -/

/-- What a system error is called after a file's name. -/
def failureText (f : Failure) : Chars :=
  match f with
  | .system e => e.text.toList
  | f => f.message.toList

/-- The octets of an operand, at most `limit` of those of a file without end. -/
def operandBytes (k : UtilityCall) (limit : Nat) (file : Chars) : Except Failure Bytes :=
  if file = ['-'] then .ok k.input
  else
    match k.disk.stat (pathOf file) with
    | .ok (_, .device true) => .ok (List.replicate limit 0)
    | _ => k.disk.read (pathOf file)

/-- Reads operands in order, or the input when there are none; `use` writes what comes of each. -/
def readEach (k : UtilityCall) (name : Chars) (limit : Nat) (files : List Chars)
    (use : Bytes → Chars) : UtilityRun :=
  let files := if files.isEmpty then [['-']] else files
  let input := if files.contains ['-'] then [] else k.input
  files.foldl (fun run file =>
    match operandBytes k limit file with
    | .ok octets =>
      let text := use octets
      { run with written := if text = [] then run.written else run.written ++ [(false, text)] }
    | .error e =>
      { run with
        written := run.written ++
          [(true, name ++ [':', ' '] ++ file ++ [':', ' '] ++ failureText e ++ ['\n'])]
        status := 1 }) ⟨[], 0, input, k.disk⟩

/-- The arguments that are options, and the others. -/
def splitOptions (args : List Chars) : List Chars × List Chars :=
  (args.takeWhile fun a => a.head? == some '-' && a != ['-'],
    args.dropWhile fun a => a.head? == some '-' && a != ['-'])

/-- `cat`: the operands one after the other. -/
def cat (k : UtilityCall) : UtilityRun :=
  readEach k "cat".toList 0 (splitOptions k.arguments).2 ofBytes

/-- The lines of a text, each with its line break. -/
def linesFrom (acc : Bytes) : Bytes → List Bytes
  | [] => if acc = [] then [] else [acc.reverse]
  | b :: bs =>
    if b = Bytes.newline then (b :: acc).reverse :: linesFrom [] bs else linesFrom (b :: acc) bs

/-- How much of a text `head` and `tail` take. -/
inductive Amount where
  | lines (n : Nat)
  | octets (n : Nat)

/-- Reads the amount of `head` and `tail`, and the operands. -/
def amountOf : List Chars → Amount × List Chars
  | ['-', 'c'] :: n :: files => (.octets (natOf n), files)
  | ['-', 'n'] :: n :: files => (.lines (natOf n), files)
  | ('-' :: 'c' :: n) :: files => (.octets (natOf n), files)
  | ('-' :: 'n' :: n) :: files => (.lines (natOf n), files)
  | ('-' :: d :: ds) :: files => (.lines (natOf (d :: ds)), files)
  | files => (.lines 10, files)

/-- `head`: the front of each operand. -/
def head (k : UtilityCall) : UtilityRun :=
  match amountOf k.arguments with
  | (.octets n, files) => readEach k "head".toList n files fun bs => ofBytes (bs.take n)
  | (.lines n, files) =>
    readEach k "head".toList 0 files fun bs => ofBytes ((linesFrom [] bs).take n).flatten

/-- `tail`: the back of each operand. -/
def tail (k : UtilityCall) : UtilityRun :=
  match amountOf k.arguments with
  | (.octets n, files) => readEach k "tail".toList 0 files fun bs => ofBytes (bs.drop (bs.length - n))
  | (.lines n, files) =>
    readEach k "tail".toList 0 files fun bs =>
      let lines := linesFrom [] bs
      ofBytes (lines.drop (lines.length - n)).flatten

/-! ## Tr -/

/-- The members of a class of characters. -/
def classMembers (name : String) : Chars :=
  let below := (List.range 128).map Char.ofNat
  match name with
  | "upper" => below.filter Char.isUpper
  | "lower" => below.filter Char.isLower
  | "digit" => below.filter Char.isDigit
  | "alpha" => below.filter Char.isAlpha
  | "alnum" => below.filter Char.isAlphanum
  | "space" => below.filter fun c => c == ' ' || (9 ≤ c.toNat && c.toNat ≤ 13)
  | "punct" => below.filter fun c => 33 ≤ c.toNat && c.toNat ≤ 126 && !c.isAlphanum
  | _ => []

/-- The characters that a set of `tr` names. -/
def trSet : Nat → Chars → Chars
  | 0, _ => []
  | _ + 1, [] => []
  | fuel + 1, '[' :: ':' :: cs =>
    let name := cs.takeWhile (· != ':')
    classMembers (String.ofList name) ++ trSet fuel (cs.drop (name.length + 2))
  | fuel + 1, '\\' :: c :: cs =>
    match letterEscape? c with
    | some x => x :: trSet fuel cs
    | none =>
      if isOctal c then
        let ds := ((c :: cs).take 3).takeWhile isOctal
        octal ds :: trSet fuel ((c :: cs).drop ds.length)
      else c :: trSet fuel cs
  | fuel + 1, a :: '-' :: b :: cs =>
    ((List.range (b.toNat + 1 - a.toNat)).map fun n => Char.ofNat (a.toNat + n)) ++ trSet fuel cs
  | fuel + 1, c :: cs => c :: trSet fuel cs

/-- The place of a character in a list. -/
def placeOf (c : Char) : Chars → Option Nat
  | [] => none
  | d :: ds => if c = d then some 0 else (placeOf c ds).map (· + 1)

/-- The text with runs of a character from the set made one. -/
def squeeze (set : Chars) : Chars → Chars
  | a :: b :: cs =>
    if a = b ∧ set.contains a then squeeze set (b :: cs) else a :: squeeze set (b :: cs)
  | cs => cs

/-- `tr`: the input with characters replaced, removed or squeezed. -/
def tr (k : UtilityCall) : UtilityRun :=
  let (options, sets) := splitOptions k.arguments
  let flags := options.flatten
  let set (n : Nat) : Chars := let cs := sets.getD n []; trSet (cs.length + 1) cs
  let from1 :=
    if flags.contains 'c' ∨ flags.contains 'C' then
      ((List.range 256).map Char.ofNat).filter fun c => !(set 0).contains c
    else set 0
  let to2 := set 1
  let text := ofBytes k.input
  let replaced :=
    if flags.contains 'd' then text.filter fun c => !from1.contains c
    else
      text.map fun c =>
        match placeOf c from1 with
        | some n => (to2[n]?).getD ((to2.getLast?).getD c)
        | none => c
  let result :=
    if flags.contains 's' then squeeze (if to2 = [] then from1 else to2) replaced else replaced
  { k.print result with input := [] }

/-! ## Others -/

/-- The number of words of a text. -/
def countWords (inWord : Bool) : Bytes → Nat
  | [] => 0
  | b :: bs =>
    let blank := b == 0x20 || (0x09 ≤ b && b ≤ 0x0D)
    (if !blank && !inWord then 1 else 0) + countWords (!blank) bs

/-- A number with blanks before it. -/
def rightAligned (width n : Nat) : Chars :=
  let ds := Nat.toDigits 10 n
  List.replicate (width - ds.length) ' ' ++ ds

/-- `wc`: the numbers of lines, words and octets. -/
def wc (k : UtilityCall) : UtilityRun :=
  let (options, files) := splitOptions k.arguments
  let flags := options.flatten.filter (· != '-')
  let all := flags.isEmpty
  let counts (bs : Bytes) : List Nat :=
    (if all || flags.contains 'l' then [bs.count Bytes.newline] else []) ++
      (if all || flags.contains 'w' then [countWords false bs] else []) ++
      (if all || flags.contains 'c' || flags.contains 'm' then [bs.length] else [])
  let line (bs : Bytes) (name : Chars) : Chars :=
    let cs := counts bs
    let width :=
      if cs.length = 1 then 1
      else if files.isEmpty then 7
      else (Nat.toDigits 10 bs.length).length
    joinBlank (cs.map (rightAligned width)) ++ name ++ ['\n']
  match files with
  | [file] => readEach k "wc".toList 0 [file] fun bs => line bs (' ' :: file)
  | _ => readEach k "wc".toList 0 [] fun bs => line bs []

/-- `seq`: integers one a line. -/
def seq (k : UtilityCall) : UtilityRun :=
  let number (cs : Chars) : Int := argumentNumber cs
  let (first, step, last) : Int × Int × Int :=
    match k.arguments with
    | [a] => (1, 1, number a)
    | [a, b] => (number a, 1, number b)
    | [a, s, b] => (number a, number s, number b)
    | _ => (1, 1, 0)
  let count :=
    if 0 < step then (last - first).tdiv step + (if first ≤ last then 1 else 0)
    else if step < 0 then (first - last).tdiv (-step) + (if last ≤ first then 1 else 0)
    else 0
  k.print ((List.range count.toNat).flatMap fun (n : Nat) =>
    (Numeral.signed (first + step * (n : Int))).toList ++ ['\n'])

/-- `basename` and `dirname`. -/
def baseName (k : UtilityCall) : UtilityRun :=
  match k.arguments with
  | path :: rest =>
    let name := ((pathOf path).fileName?.map ofBytes).getD path
    let suffix := rest.headD []
    let name :=
      if suffix.isSuffixOf name ∧ suffix ≠ name then name.take (name.length - suffix.length)
      else name
    k.print (name ++ ['\n'])
  | [] => k.complain 1 "basename: missing operand".toList

/-- The directory part of a path. -/
def dirName (k : UtilityCall) : UtilityRun :=
  match k.arguments with
  | path :: _ =>
    let dir := ((pathOf path).parent?.map fun p => ofBytes p.bytes).getD path
    k.print ((if dir = [] then ['.'] else dir) ++ ['\n'])
  | [] => k.complain 1 "dirname: missing operand".toList

/-- `rm`: removes its operands. -/
def rm (k : UtilityCall) : UtilityRun :=
  let (options, files) := splitOptions k.arguments
  let force := options.flatten.contains 'f'
  let deep := options.flatten.contains 'r' || options.flatten.contains 'R'
  files.foldl (fun run file =>
    match run.disk.tree.walk false run.disk.cwd (pathOf file) with
    | .ok (.found _ .directory) =>
      if deep then { run with disk := run.disk.remove (pathOf file) }
      else
        { run with
          written := run.written ++ [(true,
            "rm: cannot remove '".toList ++ file ++ "': Is a directory\n".toList)]
          status := 1 }
    | .ok (.found _ _) => { run with disk := run.disk.remove (pathOf file) }
    | _ =>
      if force then run
      else
        { run with
          written := run.written ++ [(true,
            "rm: cannot remove '".toList ++ file ++ "': No such file or directory\n".toList)]
          status := 1 }) (k.finish 0)

/-- `mkdir`: makes its operands. -/
def mkdir (k : UtilityCall) : UtilityRun :=
  let (options, files) := splitOptions k.arguments
  let deep := options.flatten.contains 'p'
  files.foldl (fun run file =>
    let made :=
      if deep then run.disk.makeDirectories (pathOf file) else run.disk.makeDirectory (pathOf file)
    match made with
    | .ok disk => { run with disk }
    | .error e =>
      { run with
        written := run.written ++ [(true,
          "mkdir: cannot create directory '".toList ++ file ++ "': ".toList ++ failureText e
            ++ ['\n'])]
        status := 1 }) (k.finish 0)

/-- `touch`: makes its operands if they are missing. -/
def touch (k : UtilityCall) : UtilityRun :=
  k.arguments.foldl (fun run file =>
    if run.disk.pathExists (pathOf file) then run
    else
      match run.disk.write (pathOf file) [] with
      | .ok disk => { run with disk }
      | .error e =>
        { run with
          written := run.written ++ [(true,
            "touch: cannot touch '".toList ++ file ++ "': ".toList ++ failureText e ++ ['\n'])]
          status := 1 }) (k.finish 0)

/-- The octets of one name come before those of another. -/
def nameBefore (a b : Bytes) : Bool := !(ofBytes b < ofBytes a)

/-- The names in a directory, in order. -/
def namesIn (d : Disk) (l : Files.Location) : List Bytes := (d.tree.children l).mergeSort nameBefore

/-- `ls`: the names in a directory, one a line. -/
def ls (k : UtilityCall) : UtilityRun :=
  let (options, files) := splitOptions k.arguments
  let hidden := options.flatten.contains 'a' || options.flatten.contains 'A'
  let file := files.headD ['.']
  match k.disk.stat (pathOf file) with
  | .ok (l, .directory) =>
    let names := (namesIn k.disk l).filter fun n => hidden || n.head? != some Bytes.dot
    k.print (names.flatMap fun n => ofBytes n ++ ['\n'])
  | .ok _ => k.print (file ++ ['\n'])
  | .error e =>
    k.complain 2 ("ls: cannot access '".toList ++ file ++ "': ".toList ++ failureText e)

/-- `sort`: the lines of the input in order. -/
def sort (k : UtilityCall) : UtilityRun :=
  let (_, files) := splitOptions k.arguments
  readEach k "sort".toList 0 files fun bs =>
    let lines := (linesFrom [] bs).map fun l => if l.getLast? = some Bytes.newline then l else l ++ [10]
    ofBytes (lines.mergeSort nameBefore).flatten

/-- The utility of a name. -/
def utility? (name : String) : Option (UtilityCall → UtilityRun) :=
  match name with
  | "true" => some (·.finish 0)
  | "false" => some (·.finish 1)
  | "sleep" => some (·.finish 0)
  | "echo" => some fun k => k.print (plainEchoText k.arguments)
  | "printf" => some fun k => k.print (printfText (k.arguments.headD []) k.arguments.tail)
  | "test" => some fun k => k.finish (testStatus k.disk k.arguments).1
  | "[" => some fun k => k.finish (testStatus k.disk k.arguments.dropLast).1
  | "cat" => some cat
  | "head" => some head
  | "tail" => some tail
  | "tr" => some tr
  | "wc" => some wc
  | "seq" => some seq
  | "sort" => some sort
  | "basename" => some baseName
  | "dirname" => some dirName
  | "rm" => some rm
  | "mkdir" => some mkdir
  | "touch" => some touch
  | "ls" => some ls
  | "pwd" => some fun k => k.print (ofBytes k.disk.cwdPath.bytes ++ ['\n'])
  | _ => none

/-- The names of the utilities. -/
def utilityNames : List String :=
  ["true", "false", "sleep", "echo", "printf", "test", "[", "cat", "head", "tail", "tr", "wc",
    "seq", "sort", "basename", "dirname", "rm", "mkdir", "touch", "ls", "pwd"]

end Relay.Shell
