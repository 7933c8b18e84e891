import RowGuard.Json.Document
import RowGuard.Json.Number

/-!
# Reading JSON texts

`Document.parse?` reads a whole text. The spelling is checked strictly: one
value with nothing but blanks around it, no comments, no trailing commas, no
leading zeros. What is spelled correctly and denotes nothing becomes
`Document.unreadable`, so that it is refused only where it is looked at.

Each reader takes the characters that are left and gives back those it did not
use.
-/

namespace RowGuard

namespace Document

/-- How deep containers may be nested. -/
def depthLimit : Nat := 127

/-- Drops the blanks of JSON: space, tab, line feed and carriage return. -/
def skipBlanks : List Char → List Char
  | c :: cs =>
    if c = ' ' || c = '\t' || c = '\n' || c = '\r' then skipBlanks cs
      else c :: cs
  | [] => []

/-- Drops `word` from the front of the text. -/
def skipWord : List Char → List Char → Option (List Char)
  | [], cs => some cs
  | w :: word, c :: cs => if w = c then skipWord word cs else none
  | _ :: _, [] => none

/-- The value of a decimal digit. -/
def digit? (c : Char) : Option Nat :=
  if c.isDigit then some (c.toNat - '0'.toNat) else none

/-- The digits at the front of the text. -/
def readDigits : List Char → List Nat × List Char
  | [] => ([], [])
  | c :: cs =>
    match digit? c with
    | none => ([], c :: cs)
    | some d =>
      let (ds, rest) := readDigits cs
      (d :: ds, rest)

/-- One digit or more. -/
def readDigits? (cs : List Char) : Option (List Nat × List Char) :=
  match readDigits cs with
  | ([], _) => none
  | found => some found

/-- The digits of an integer, which has no leading zero. -/
def readWhole? (cs : List Char) : Option (List Nat × List Char) := do
  let (digits, rest) ← readDigits? cs
  if digits.length ≠ 1 && digits.head? = some 0 then none
    else some (digits, rest)

/-- The fraction after a point, if there is a point. -/
def readFraction? : List Char → Option (Option (List Nat) × List Char)
  | '.' :: cs => (readDigits? cs).map fun (digits, rest) => (some digits, rest)
  | cs => some (none, cs)

/-- The exponent after its mark, if there is a mark. -/
def readExponent? : List Char → Option (Option Exponent × List Char)
  | c :: cs =>
    if c = 'e' || c = 'E' then
      let (negative, cs) :=
        match cs with
        | '-' :: cs => (true, cs)
        | '+' :: cs => (false, cs)
        | cs => (false, cs)
      (readDigits? cs).map fun (digits, rest) => (some ⟨negative, digits⟩, rest)
    else some (none, c :: cs)
  | [] => some (none, [])

/-- A number as written. -/
def readNumeral? (cs : List Char) : Option (Numeral × List Char) := do
  let (negative, cs) :=
    match cs with
    | '-' :: cs => (true, cs)
    | cs => (false, cs)
  let (whole, cs) ← readWhole? cs
  let (fraction, cs) ← readFraction? cs
  let (exponent, cs) ← readExponent? cs
  return (⟨negative, whole, fraction, exponent⟩, cs)

/-- The value of a hexadecimal digit. -/
def hexDigit? (c : Char) : Option Nat :=
  if c.isDigit then some (c.toNat - '0'.toNat)
  else if 'a' ≤ c && c ≤ 'f' then some (c.toNat - 'a'.toNat + 10)
  else if 'A' ≤ c && c ≤ 'F' then some (c.toNat - 'A'.toNat + 10)
  else none

/-- The number written by four hexadecimal digits. -/
def hexUnit? (a b c d : Char) : Option Nat := do
  let high := (← hexDigit? a) * 16 + (← hexDigit? b)
  return high * 256 + (← hexDigit? c) * 16 + (← hexDigit? d)

/-- A piece of a string: a character, or one 16-bit unit that was written as an
escape. -/
inductive Piece where
  | char (c : Char)
  | unit (n : Nat)

/-- The character that a one-letter escape stands for. -/
def simpleEscape? (c : Char) : Option Char :=
  [('"', '"'), ('\\', '\\'), ('/', '/'), ('b', '\x08'), ('f', '\x0c'),
    ('n', '\n'), ('r', '\r'), ('t', '\t')].lookup c

/-- The pieces of a string up to its closing quote. -/
def readPieces? : List Char → Option (List Piece × List Char)
  | [] => none
  | '"' :: rest => some ([], rest)
  | '\\' :: 'u' :: a :: b :: c :: d :: rest => do
    let n ← hexUnit? a b c d
    let (pieces, rest) ← readPieces? rest
    return (.unit n :: pieces, rest)
  | '\\' :: e :: rest => do
    let c ← simpleEscape? e
    let (pieces, rest) ← readPieces? rest
    return (.char c :: pieces, rest)
  | c :: rest => do
    if c.toNat < 0x20 then none
    let (pieces, rest) ← readPieces? rest
    return (.char c :: pieces, rest)

/-- The characters that the pieces spell. A leading surrogate has to be followed
by a trailing one; a string in which half a pair is missing spells nothing. -/
def spell? : List Piece → Option (List Char)
  | [] => some []
  | .char c :: pieces => (spell? pieces).map (c :: ·)
  | .unit n :: pieces =>
    if n < 0xD800 || 0xDFFF < n then (spell? pieces).map (Char.ofNat n :: ·)
    else
      match pieces with
      | .unit m :: pieces =>
        if n < 0xDC00 && 0xDC00 ≤ m && m ≤ 0xDFFF then
          let code := 0x10000 + (n - 0xD800) * 0x400 + (m - 0xDC00)
          (spell? pieces).map (Char.ofNat code :: ·)
        else none
      | _ => none

/-- A string after its opening quote; the inner option is empty if it spells
nothing. -/
def readString? (cs : List Char) : Option (Option String × List Char) :=
  (readPieces? cs).map fun (pieces, rest) =>
    ((spell? pieces).map String.ofList, rest)

/-- The object of these members, unless one of the names spells nothing. -/
def ofNamed? : List (Option String × Document) →
    Option (List (String × Document))
  | [] => some []
  | (name, value) :: members => do
    return (← name, value) :: (← ofNamed? members)

/-- A container, which is unreadable inside too many others. -/
def atDepth (depth : Nat) (document : Document) : Document :=
  if depth < depthLimit then document else .unreadable

mutual

/-- One value inside `depth` containers. Every call uses up some of `fuel`;
twice the number of characters is enough. -/
def readValue? (fuel depth : Nat) (cs : List Char) :
    Option (Document × List Char) :=
  match fuel with
  | 0 => none
  | fuel + 1 =>
    match skipBlanks cs with
    | '"' :: cs =>
      (readString? cs).map fun (text, rest) =>
        (text.elim .unreadable .string, rest)
    | '[' :: cs =>
      let items :=
        match skipBlanks cs with
        | ']' :: rest => some ([], rest)
        | cs => readItems? fuel (depth + 1) cs
      items.map fun (items, rest) => (atDepth depth (.array items), rest)
    | '\x7b' :: cs =>
      let members :=
        match skipBlanks cs with
        | '\x7d' :: rest => some ([], rest)
        | cs => readMembers? fuel (depth + 1) cs
      members.map fun (members, rest) =>
        (atDepth depth ((ofNamed? members).elim .unreadable .object), rest)
    | 't' :: cs => (skipWord "rue".toList cs).map fun rest => (.bool true, rest)
    | 'f' :: cs =>
      (skipWord "alse".toList cs).map fun rest => (.bool false, rest)
    | 'n' :: cs => (skipWord "ull".toList cs).map fun rest => (.null, rest)
    | cs =>
      (readNumeral? cs).map fun (numeral, rest) =>
        (numeral.value?.elim .unreadable .number, rest)

/-- The items of an array up to its closing bracket. -/
def readItems? (fuel depth : Nat) (cs : List Char) :
    Option (List Document × List Char) :=
  match fuel with
  | 0 => none
  | fuel + 1 => do
    let (item, cs) ← readValue? fuel depth cs
    match skipBlanks cs with
    | ',' :: cs =>
      let (items, rest) ← readItems? fuel depth cs
      return (item :: items, rest)
    | ']' :: rest => return ([item], rest)
    | _ => none

/-- The members of an object up to its closing brace. -/
def readMembers? (fuel depth : Nat) (cs : List Char) :
    Option (List (Option String × Document) × List Char) :=
  match fuel with
  | 0 => none
  | fuel + 1 => do
    let '"' :: cs := skipBlanks cs | none
    let (name, cs) ← readString? cs
    let ':' :: cs := skipBlanks cs | none
    let (value, cs) ← readValue? fuel depth cs
    match skipBlanks cs with
    | ',' :: cs =>
      let (members, rest) ← readMembers? fuel depth cs
      return ((name, value) :: members, rest)
    | '\x7d' :: rest => return ([(name, value)], rest)
    | _ => none

end

/-- Reads a text that is one JSON value. -/
def parse? (text : String) : Option Document := do
  let cs := text.toList
  let (document, rest) ← readValue? (2 * cs.length + 2) 0 cs
  if (skipBlanks rest).isEmpty then some document else none

end Document

/-- Reads a JSON text as the value it denotes. -/
def Json.parse? (text : String) : Option Json :=
  (Document.parse? text).bind Document.toJson?

end RowGuard
