import CognitiveAgent.Number.Rounding
import CognitiveAgent.Text.Digits
import CognitiveAgent.Toml.Basic

/-!
Reading the single values of TOML: texts in four kinds of quotes, numbers, dates and times.
Every reader takes characters from the front and gives the value with the rest.
-/

set_option autoImplicit false

namespace CognitiveAgent.Toml

open Text

def isBlank (c : Char) : Bool := c == ' ' || c == '\t'

def skipBlanks (cs : List Char) : List Char := cs.dropWhile isBlank

/-- A character that may stand in a line: no control character but the tabulator. -/
def isLineChar (c : Char) : Bool := c == '\t' || (0x20 ≤ c.toNat && c.toNat != 0x7f)

def skipLayout (inComment : Bool) : List Char → List Char
  | [] => []
  | '\n' :: rest => skipLayout false rest
  | '\r' :: '\n' :: rest => skipLayout false rest
  | c :: rest =>
    if inComment then if isLineChar c then skipLayout true rest else c :: rest
    else if c == '#' then skipLayout true rest
    else if isBlank c then skipLayout false rest
    else c :: rest

def endLine? (cs : List Char) : Option (List Char) :=
  let cs :=
    match skipBlanks cs with
    | '#' :: rest => rest.dropWhile isLineChar
    | rest => rest
  match cs with
  | [] => some []
  | '\n' :: rest => some rest
  | '\r' :: '\n' :: rest => some rest
  | _ => none

/-! ## Texts -/

def ofReversed (read : List Char) : String := String.ofList read.reverse

def escaped? : Char → Option Char
  | 'b' => some '\x08'
  | 't' => some '\t'
  | 'n' => some '\n'
  | 'f' => some '\x0c'
  | 'r' => some '\r'
  | '"' => some '"'
  | '\\' => some '\\'
  | _ => none

def charOfHex? (digits : List Char) : Option Char := do
  let code ← nat? 16 digits
  if code.isValidChar then return Char.ofNat code else none

def readEscape : List Char → Option (Char × List Char)
  | 'u' :: rest =>
    if rest.length < 4 then none
    else (charOfHex? (rest.take 4)).map fun c => (c, rest.drop 4)
  | 'U' :: rest =>
    if rest.length < 8 then none
    else (charOfHex? (rest.take 8)).map fun c => (c, rest.drop 8)
  | c :: rest => (escaped? c).map fun c => (c, rest)
  | [] => none

def readBasic : Nat → List Char → List Char → Option (String × List Char)
  | _, _, [] => none
  | _, read, '"' :: rest => some (ofReversed read, rest)
  | 0, _, _ => none
  | fuel + 1, read, '\\' :: rest =>
    match readEscape rest with
    | some (c, rest) => readBasic fuel (c :: read) rest
    | none => none
  | fuel + 1, read, c :: rest =>
    if isLineChar c then readBasic fuel (c :: read) rest else none

def readLiteral : List Char → List Char → Option (String × List Char)
  | _, [] => none
  | read, '\'' :: rest => some (ofReversed read, rest)
  | read, c :: rest => if isLineChar c then readLiteral (c :: read) rest else none

def blankToLineEnd (cs : List Char) : Bool :=
  match skipBlanks cs with
  | '\n' :: _ => true
  | '\r' :: '\n' :: _ => true
  | _ => false

def skipGap : List Char → List Char
  | [] => []
  | '\n' :: rest => skipGap rest
  | '\r' :: '\n' :: rest => skipGap rest
  | c :: rest => if isBlank c then skipGap rest else c :: rest

/-- A text of several lines behind its opening quotes. Up to two quotes may stand right before
the three that close it. A backslash at the end of a line, which only double quotes know, joins
the next character that is no blank. -/
def readLines (quote : Char) (escapes : Bool) :
    Nat → List Char → List Char → Option (String × List Char)
  | 0, _, _ => none
  | _, _, [] => none
  | fuel + 1, read, c :: rest =>
    if c == quote then
      let quotes := min 5 (1 + (rest.takeWhile (· == quote)).length)
      if quotes < 3 then readLines quote escapes fuel (c :: read) rest
      else some (ofReversed (List.replicate (quotes - 3) quote ++ read), rest.drop (quotes - 1))
    else if c == '\\' && escapes then
      if blankToLineEnd rest then readLines quote escapes fuel read (skipGap rest)
      else
        match readEscape rest with
        | some (c, rest) => readLines quote escapes fuel (c :: read) rest
        | none => none
    else if c == '\r' then
      match rest with
      | '\n' :: rest => readLines quote escapes fuel ('\n' :: read) rest
      | _ => none
    else if isLineChar c || c == '\n' then readLines quote escapes fuel (c :: read) rest
    else none

/-- A line end right behind the opening quotes does not count. -/
def dropLineEnd : List Char → List Char
  | '\n' :: rest => rest
  | '\r' :: '\n' :: rest => rest
  | cs => cs

def readText : List Char → Option (String × List Char)
  | '"' :: '"' :: '"' :: rest => readLines '"' true (rest.length + 1) [] (dropLineEnd rest)
  | '\'' :: '\'' :: '\'' :: rest => readLines '\'' false (rest.length + 1) [] (dropLineEnd rest)
  | '"' :: rest => readBasic (rest.length + 1) [] rest
  | '\'' :: rest => readLiteral [] rest
  | _ => none

/-! ## Numbers -/

def readMoreDigits (base : Nat) : List Char → Option (List Char × List Char)
  | [] => some ([], [])
  | '_' :: c :: rest =>
    if isDigit base c then (readMoreDigits base rest).map fun (digits, rest) => (c :: digits, rest)
    else none
  | c :: rest =>
    if c == '_' then none
    else if isDigit base c then
      (readMoreDigits base rest).map fun (digits, rest) => (c :: digits, rest)
    else some ([], c :: rest)

def readAllDigits (base : Nat) : List Char → Option (List Char × List Char)
  | '_' :: _ => none
  | cs => do
    let (digits, rest) ← readMoreDigits base cs
    if digits.isEmpty then none else return (digits, rest)

/-- Whole numbers have 64 bits with a sign. -/
def ofInt? (value : Int) : Option Toml :=
  let limit : Int := Nat.pow 2 63
  if -limit ≤ value ∧ value < limit then some (.integer value) else none

def readBased (base : Nat) (cs : List Char) : Option (Toml × List Char) := do
  let (digits, rest) ← readAllDigits base cs
  return (← ofInt? (← nat? base digits), rest)

def readPlaces : List Char → Option (Option (List Char) × List Char)
  | '.' :: rest => do
    let (digits, rest) ← readAllDigits 10 rest
    return (some digits, rest)
  | cs => some (none, cs)

def readPower : List Char → Option (Option Int × List Char)
  | [] => some (none, [])
  | c :: rest =>
    if c == 'e' || c == 'E' then do
      let (negative, rest) := readSign rest
      let (digits, rest) ← readAllDigits 10 rest
      let value : Int := natOfDigits digits
      return (some (if negative then -value else value), rest)
    else some (none, c :: rest)

/-- A decimal number behind its sign. Above the largest finite number there is none. -/
def readDecimal (negative : Bool) (cs : List Char) : Option (Toml × List Char) := do
  let (whole, rest) ← readAllDigits 10 cs
  if whole.head? = some '0' ∧ 1 < whole.length then none
  let (places, rest) ← readPlaces rest
  let (power, rest) ← readPower rest
  match places, power with
  | none, none =>
    let value : Int := natOfDigits whole
    return (← ofInt? (if negative then -value else value), rest)
  | _, _ =>
    let places := places.getD []
    let digits := natOfDigits (whole ++ places)
    let x := Number.ofDecimal negative digits (power.getD 0 - places.length)
    if x == .infinity false then none else return (.real x, rest)

def readNumber : List Char → Option (Toml × List Char)
  | '0' :: 'x' :: rest => readBased 16 rest
  | '0' :: 'o' :: rest => readBased 8 rest
  | '0' :: 'b' :: rest => readBased 2 rest
  | cs =>
    match readSign cs with
    | (negative, 'i' :: 'n' :: 'f' :: rest) => some (.real (.infinity negative), rest)
    | (_, 'n' :: 'a' :: 'n' :: rest) => some (.real .nan, rest)
    | (negative, rest) => readDecimal negative rest

/-! ## Dates and times -/

def readField (width low high : Nat) (cs : List Char) : Option (String × List Char) := do
  let digits := cs.take width
  let value ← nat? 10 digits
  if digits.length = width ∧ low ≤ value ∧ value ≤ high then
    return (String.ofList digits, cs.drop width)
  else none

def isLeap (year : Nat) : Bool := year % 4 == 0 && (year % 100 != 0 || year % 400 == 0)

def daysIn (year month : Nat) : Nat :=
  if month = 2 then if isLeap year then 29 else 28
  else if [4, 6, 9, 11].contains month then 30
  else 31

def expect (c : Char) : List Char → Option (List Char)
  | d :: rest => if d == c then some rest else none
  | [] => none

def readDate (cs : List Char) : Option (String × List Char) := do
  let (year, cs) ← readField 4 0 9999 cs
  let (month, cs) ← readField 2 1 12 (← expect '-' cs)
  let days := daysIn (natOfDigits year.toList) (natOfDigits month.toList)
  let (day, cs) ← readField 2 1 days (← expect '-' cs)
  return (year ++ "-" ++ month ++ "-" ++ day, cs)

/-- Nine places of a second count, and zeros at the end do not. -/
def fractionText (digits : List Char) : String :=
  match ((digits.take 9).reverse.dropWhile (· == '0')).reverse with
  | [] => ""
  | kept => String.ofList ('.' :: kept)

def readTime (cs : List Char) : Option (String × List Char) := do
  let (hour, cs) ← readField 2 0 23 cs
  let (minute, cs) ← readField 2 0 59 (← expect ':' cs)
  let (second, cs) ← readField 2 0 60 (← expect ':' cs)
  let (fraction, cs) ←
    match cs with
    | '.' :: rest =>
      match readDigits rest with
      | ([], _) => none
      | (digits, rest) => some (fractionText digits, rest)
    | cs => some ("", cs)
  return (hour ++ ":" ++ minute ++ ":" ++ second ++ fraction, cs)

def readOffset : List Char → Option (String × List Char)
  | [] => some ("", [])
  | c :: rest =>
    if c == 'Z' || c == 'z' then some ("Z", rest)
    else if c == '+' || c == '-' then do
      let (hours, rest) ← readField 2 0 23 rest
      let (minutes, rest) ← readField 2 0 59 (← expect ':' rest)
      let sign := if c == '-' && (hours, minutes) != ("00", "00") then "-" else "+"
      return (sign ++ hours ++ ":" ++ minutes, rest)
    else some ("", c :: rest)

def startsTime : List Char → Bool
  | a :: b :: ':' :: _ => a.isDigit && b.isDigit
  | _ => false

def startsDate (cs : List Char) : Bool :=
  match readDigits cs with
  | ([_, _, _, _], '-' :: _) => true
  | _ => false

def isTimeMark (c : Char) : Bool := c == 'T' || c == 't' || c == ' '

def readMoment (cs : List Char) : Option (Toml × List Char) :=
  if startsTime cs then (readTime cs).map fun (time, rest) => (.moment time, rest)
  else do
    let (date, cs) ← readDate cs
    match cs with
    | c :: rest =>
      if isTimeMark c && startsTime rest then
        let (time, rest) ← readTime rest
        let (offset, rest) ← readOffset rest
        return (.moment (date ++ "T" ++ time ++ offset), rest)
      else return (.moment date, c :: rest)
    | [] => return (.moment date, [])

end CognitiveAgent.Toml
