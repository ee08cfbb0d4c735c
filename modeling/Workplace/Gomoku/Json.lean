import Workplace.Http.Text

/-! The JSON texts of the server: the documents its handlers build, and `dump`, which throws
on a string that is not UTF-8. Reading a document is left to the library. -/

namespace Workplace.Gomoku
open Workplace.Http

/-- What the handlers use of the library to read a request body. The conversions are those of
`value[key]`; `dumpError` is the text of the exception about a string that is not UTF-8. -/
structure JsonLib where
  Value : Type
  parse : Bytes → Except Bytes Value
  getInt : Value → Bytes → Except Bytes Int
  getString : Value → Bytes → Except Bytes Bytes
  dumpError : Bytes → Bytes

/-- The entries of an object are given in the order of their keys, as the library keeps them. -/
inductive Json where
  | str (s : Bytes)
  | int (i : Int)
  | bool (b : Bool)
  | arr (items : List Json)
  | obj (entries : List (Bytes × Json))

namespace Json

/-- The ranges of the bytes that must follow `b` in UTF-8: no overlong form, no surrogate,
nothing above the last code point. -/
def following (b : UInt8) : Option (List (UInt8 × UInt8)) :=
  if b < 0x80 then some []
  else if b < 0xC2 then none
  else if b ≤ 0xDF then some [(0x80, 0xBF)]
  else if b = 0xE0 then some [(0xA0, 0xBF), (0x80, 0xBF)]
  else if b = 0xED then some [(0x80, 0x9F), (0x80, 0xBF)]
  else if b ≤ 0xEF then some [(0x80, 0xBF), (0x80, 0xBF)]
  else if b = 0xF0 then some [(0x90, 0xBF), (0x80, 0xBF), (0x80, 0xBF)]
  else if b ≤ 0xF3 then some [(0x80, 0xBF), (0x80, 0xBF), (0x80, 0xBF)]
  else if b = 0xF4 then some [(0x80, 0x8F), (0x80, 0xBF), (0x80, 0xBF)]
  else none

def utf8From (expected : List (UInt8 × UInt8)) : Bytes → Bool
  | [] => expected.isEmpty
  | b :: bs =>
    match expected with
    | (low, high) :: expected => low ≤ b && b ≤ high && utf8From expected bs
    | [] =>
      match following b with
      | some expected => utf8From expected bs
      | none => false

def isUtf8 (s : Bytes) : Bool := utf8From [] s

def hexDigit (n : UInt8) : UInt8 := if n < 10 then 48 + n else 87 + n

def escapeByte (b : UInt8) : Bytes :=
  if b = 0x08 then bytes "\\b"
  else if b = 0x09 then bytes "\\t"
  else if b = 0x0A then bytes "\\n"
  else if b = 0x0C then bytes "\\f"
  else if b = 0x0D then bytes "\\r"
  else if b = 0x22 then [0x5C, 0x22]
  else if b = 0x5C then [0x5C, 0x5C]
  else if b ≤ 0x1F then bytes "\\u00" ++ [hexDigit (b / 16), hexDigit (b % 16)]
  else [b]

def dumpString (J : JsonLib) (s : Bytes) : Except Bytes Bytes :=
  if isUtf8 s then .ok ([0x22] ++ s.flatMap escapeByte ++ [0x22]) else .error (J.dumpError s)

/-- A new line with its indentation, unless the text is compact. -/
def newline (indent : Option Nat) (current : Nat) : Bytes :=
  match indent with
  | some _ => LF :: List.replicate current 32
  | none => []

mutual

def dump (J : JsonLib) (indent : Option Nat) (current : Nat) : Json → Except Bytes Bytes
  | .str s => dumpString J s
  | .int i => .ok (bytes (toString i))
  | .bool b => .ok (if b then bytes "true" else bytes "false")
  | .arr [] => .ok (bytes "[]")
  | .arr (v :: vs) => do
    let inner ← dumpItems J indent (current + indent.getD 0) (v :: vs)
    return [0x5B] ++ inner ++ newline indent current ++ [0x5D]
  | .obj [] => .ok [0x7B, 0x7D]
  | .obj (e :: es) => do
    let inner ← dumpEntries J indent (current + indent.getD 0) (e :: es)
    return [0x7B] ++ inner ++ newline indent current ++ [0x7D]

def dumpItems (J : JsonLib) (indent : Option Nat) (current : Nat) :
    List Json → Except Bytes Bytes
  | [] => .ok []
  | v :: vs => do
    let text ← dump J indent current v
    let rest ← dumpItems J indent current vs
    return newline indent current ++ text ++ (if vs.isEmpty then [] else bytes ",") ++ rest

def dumpEntries (J : JsonLib) (indent : Option Nat) (current : Nat) :
    List (Bytes × Json) → Except Bytes Bytes
  | [] => .ok []
  | (key, v) :: es => do
    let name ← dumpString J key
    let text ← dump J indent current v
    let rest ← dumpEntries J indent current es
    let colon := if indent.isSome then bytes ": " else bytes ":"
    return newline indent current ++ name ++ colon ++ text ++
      (if es.isEmpty then [] else bytes ",") ++ rest

end

/-- All strings of the document are UTF-8. -/
inductive Dumpable : Json → Prop
  | str {s : Bytes} (h : isUtf8 s = true) : Dumpable (.str s)
  | int (i : Int) : Dumpable (.int i)
  | bool (b : Bool) : Dumpable (.bool b)
  | arr {items : List Json} (h : ∀ v ∈ items, Dumpable v) : Dumpable (.arr items)
  | obj {entries : List (Bytes × Json)} (hkey : ∀ e ∈ entries, isUtf8 e.1 = true)
      (h : ∀ e ∈ entries, Dumpable e.2) : Dumpable (.obj entries)

theorem Dumpable.nil : Dumpable (.obj []) := .obj (by simp) (by simp)

theorem Dumpable.cons {key : Bytes} {v : Json} {entries : List (Bytes × Json)}
    (hkey : isUtf8 key = true) (hv : Dumpable v) (h : Dumpable (.obj entries)) :
    Dumpable (.obj ((key, v) :: entries)) := by
  cases h with
  | obj hkeys hvs =>
    exact .obj (List.forall_mem_cons.mpr ⟨hkey, hkeys⟩) (List.forall_mem_cons.mpr ⟨hv, hvs⟩)

variable {J : JsonLib} {indent : Option Nat}

theorem dumpString_of_utf8 {s : Bytes} (h : isUtf8 s = true) :
    ∃ t, dumpString J s = .ok t := ⟨_, if_pos h⟩

theorem exists_dumpItems {items : List Json}
    (h : ∀ v ∈ items, ∀ current, ∃ t, dump J indent current v = .ok t) (current : Nat) :
    ∃ t, dumpItems J indent current items = .ok t := by
  induction items with
  | nil => exact ⟨[], by rw [dumpItems]⟩
  | cons v vs ih =>
    obtain ⟨t, ht⟩ := h v List.mem_cons_self current
    obtain ⟨u, hu⟩ := ih fun w hw => h w (List.mem_cons_of_mem v hw)
    rw [dumpItems, ht, hu]
    exact ⟨_, rfl⟩

theorem exists_dumpEntries {entries : List (Bytes × Json)}
    (hkey : ∀ e ∈ entries, isUtf8 e.1 = true)
    (h : ∀ e ∈ entries, ∀ current, ∃ t, dump J indent current e.2 = .ok t) (current : Nat) :
    ∃ t, dumpEntries J indent current entries = .ok t := by
  induction entries with
  | nil => exact ⟨[], by rw [dumpEntries]⟩
  | cons e es ih =>
    obtain ⟨key, v⟩ := e
    have hkey' := List.forall_mem_cons.mp hkey
    have h' := List.forall_mem_cons.mp h
    obtain ⟨k, hk⟩ := dumpString_of_utf8 (J := J) hkey'.1
    obtain ⟨t, ht⟩ := h'.1 current
    obtain ⟨u, hu⟩ := ih hkey'.2 h'.2
    rw [dumpEntries, hk, ht, hu]
    exact ⟨_, rfl⟩

/-- **A document of UTF-8 strings is dumped** without an exception. -/
theorem Dumpable.exists_dump {v : Json} (h : Dumpable v) (current : Nat) :
    ∃ t, dump J indent current v = .ok t := by
  induction h generalizing current with
  | str h => exact ⟨_, by rw [dump]; exact if_pos h⟩
  | int i => exact ⟨_, by rw [dump]⟩
  | bool b => exact ⟨_, by rw [dump]⟩
  | @arr items _ ih =>
    cases items with
    | nil => exact ⟨_, by rw [dump]⟩
    | cons v vs =>
      obtain ⟨t, ht⟩ := exists_dumpItems ih (current + indent.getD 0)
      rw [dump, ht]
      exact ⟨_, rfl⟩
  | @obj entries hkey _ ih =>
    cases entries with
    | nil => exact ⟨_, by rw [dump]⟩
    | cons e es =>
      obtain ⟨t, ht⟩ := exists_dumpEntries hkey ih (current + indent.getD 0)
      rw [dump, ht]
      exact ⟨_, rfl⟩

/-- The text of an object begins with its brace. -/
theorem head_dump_obj {entries : List (Bytes × Json)} {current : Nat} {t : Bytes}
    (h : dump J indent current (.obj entries) = .ok t) : t.head? = some 0x7B := by
  cases entries with
  | nil =>
    rw [dump] at h
    cases h
    rfl
  | cons e es =>
    rw [dump] at h
    cases hinner : dumpEntries J indent (current + indent.getD 0) (e :: es) with
    | error what =>
      rw [hinner] at h
      cases h
    | ok inner =>
      rw [hinner] at h
      cases h
      rfl

end Json
end Workplace.Gomoku
