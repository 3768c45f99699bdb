import SpecTree.Json.Number
import SpecTree.Text.Hex

/-!
# Reading JSON

A recursive descent over the characters of a text. Arrays and objects nest at most 127
levels deep; a deeper document is refused, as is anything behind the document.
-/

namespace SpecTree.Json

/-- Drop the white space that JSON allows between tokens. -/
def skipBlanks (s : List Char) : List Char :=
  s.dropWhile fun c => c = ' ' ∨ c = '\t' ∨ c = '\n' ∨ c = '\r'

/-- The character of a short escape. -/
def shortEscape? : Char → Option Char
  | '"' => some '"'
  | '\\' => some '\\'
  | '/' => some '/'
  | 'b' => some '\x08'
  | 'f' => some '\x0c'
  | 'n' => some '\n'
  | 'r' => some '\r'
  | 't' => some '\t'
  | _ => none

/-- The characters of a string up to the closing quote, and the text behind it. A character
beyond the first plane is written as a pair of surrogates; half a pair is refused. -/
def takeString? : List Char → Option (List Char × List Char)
  | [] => none
  | '"' :: rest => some ([], rest)
  | '\\' :: 'u' :: a :: b :: c :: d :: '\\' :: 'u' :: e :: f :: g :: h :: rest => do
    let high ← Text.ofHex? [a, b, c, d]
    if 0xD800 ≤ high ∧ high < 0xDC00 then
      let low ← Text.ofHex? [e, f, g, h]
      if 0xDC00 ≤ low ∧ low < 0xE000 then
        let (cs, rest) ← takeString? rest
        return (Char.ofNat (0x10000 + (high - 0xD800) * 0x400 + (low - 0xDC00)) :: cs, rest)
      else none
    else if 0xDC00 ≤ high ∧ high < 0xE000 then none
    else
      let (cs, rest) ← takeString? ('\\' :: 'u' :: e :: f :: g :: h :: rest)
      return (Char.ofNat high :: cs, rest)
  | '\\' :: 'u' :: a :: b :: c :: d :: rest => do
    let code ← Text.ofHex? [a, b, c, d]
    if 0xD800 ≤ code ∧ code < 0xE000 then none
    else
      let (cs, rest) ← takeString? rest
      return (Char.ofNat code :: cs, rest)
  | '\\' :: e :: rest => do
    let c ← shortEscape? e
    let (cs, rest) ← takeString? rest
    return (c :: cs, rest)
  | c :: rest =>
    if c.toNat < 0x20 then none
    else do
      let (cs, rest) ← takeString? rest
      return (c :: cs, rest)

mutual

/-- The value at the front of a text, and the text behind it. `depth` bounds the nesting,
`fuel` the number of steps. -/
def takeValue? (depth : Nat) : Nat → List Char → Option (Json × List Char)
  | 0, _ => none
  | fuel + 1, s =>
    match skipBlanks s with
    | 'n' :: 'u' :: 'l' :: 'l' :: rest => some (null, rest)
    | 't' :: 'r' :: 'u' :: 'e' :: rest => some (bool true, rest)
    | 'f' :: 'a' :: 'l' :: 's' :: 'e' :: rest => some (bool false, rest)
    | '"' :: rest => do
      let (cs, rest) ← takeString? rest
      return (string (String.ofList cs), rest)
    | '[' :: rest =>
      if depth ≤ 1 then none
      else match skipBlanks rest with
        | ']' :: rest => some (array [], rest)
        | rest => do
          let (items, rest) ← takeItems? (depth - 1) fuel rest
          return (array items, rest)
    | '\x7b' :: rest =>
      if depth ≤ 1 then none
      else match skipBlanks rest with
        | '\x7d' :: rest => some (object [], rest)
        | rest => do
          let (members, rest) ← takeMembers? (depth - 1) fuel rest
          return (ofMembers members, rest)
    | rest => (JsonNumber.take? rest).map fun (n, rest) => (number n, rest)

/-- The items of an array up to its closing bracket. -/
def takeItems? (depth : Nat) : Nat → List Char → Option (List Json × List Char)
  | 0, _ => none
  | fuel + 1, s => do
    let (item, rest) ← takeValue? depth fuel s
    match skipBlanks rest with
    | ',' :: rest => do
      let (items, rest) ← takeItems? depth fuel rest
      return (item :: items, rest)
    | ']' :: rest => return ([item], rest)
    | _ => none

/-- The members of an object up to its closing brace. -/
def takeMembers? (depth : Nat) : Nat → List Char → Option (List (String × Json) × List Char)
  | 0, _ => none
  | fuel + 1, s =>
    match skipBlanks s with
    | '"' :: rest => do
      let (name, rest) ← takeString? rest
      match skipBlanks rest with
      | ':' :: rest => do
        let (value, rest) ← takeValue? depth fuel rest
        let here := (String.ofList name, value)
        match skipBlanks rest with
        | ',' :: rest => do
          let (members, rest) ← takeMembers? depth fuel rest
          return (here :: members, rest)
        | '\x7d' :: rest => return ([here], rest)
        | _ => none
      | _ => none
    | _ => none

end

/-- How deep a document may nest. -/
def maxDepth : Nat := 128

/-- Read a document. Every step takes a character, so as many steps as characters do. -/
def parse? (text : String) : Option Json :=
  let s := text.toList
  match takeValue? maxDepth (2 * s.length + 2) s with
  | some (value, rest) => if skipBlanks rest = [] then some value else none
  | none => none

end SpecTree.Json
