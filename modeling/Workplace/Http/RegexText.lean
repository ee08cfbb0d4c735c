import Workplace.Http.Text
import Workplace.Lib.Regex

/-! `std::regex` over bytes, with the grammar of ECMAScript: a text is cut into tokens, and the
tokens are put together to a regular expression. `none` is a `std::regex_error`. -/

namespace Workplace.Http
namespace RegexText
open Workplace.Lib

abbrev CharSet := UInt8 → Bool

def toChar (b : UInt8) : Char := Char.ofNat b.toNat

inductive GroupKind where
  | capture
  | plain
  | ahead (negated : Bool)

inductive Token where
  | atom (r : Regex UInt8)
  | assertion (r : Regex UInt8)
  | opening (kind : GroupKind)
  | close
  | bar
  | quantifier (min : Nat) (max : Option Nat) (greedy : Bool)

/-! ## Sets of characters -/

def isupper (b : UInt8) : Bool := 65 ≤ b && b ≤ 90

def islower (b : UInt8) : Bool := 97 ≤ b && b ≤ 122

def isalpha (b : UInt8) : Bool := isupper b || islower b

def isalnum (b : UInt8) : Bool := isalpha b || isdigit b

def isword (b : UInt8) : Bool := isalnum b || b = 95

def isgraph (b : UInt8) : Bool := 33 ≤ b && b ≤ 126

def isxdigit (b : UInt8) : Bool := isdigit b || (65 ≤ b && b ≤ 70) || (97 ≤ b && b ≤ 102)

/-- The names between `[:` and `:]`. -/
def classNames : List (Bytes × CharSet) :=
  [(bytes "alnum", isalnum), (bytes "alpha", isalpha), (bytes "blank", fun b => b = 32 || b = 9),
    (bytes "cntrl", fun b => b < 32 || b = 127), (bytes "digit", isdigit), (bytes "d", isdigit),
    (bytes "graph", isgraph), (bytes "lower", islower),
    (bytes "print", fun b => isgraph b || b = 32),
    (bytes "punct", fun b => isgraph b && !isalnum b), (bytes "space", isspace),
    (bytes "s", isspace), (bytes "upper", isupper), (bytes "w", isword),
    (bytes "xdigit", isxdigit)]

def hexValue (b : UInt8) : Nat :=
  if isdigit b then b.toNat - 48 else if isupper b then b.toNat - 55 else b.toNat - 87

/-- The character that `n` hexadecimal digits stand for. -/
def hexChar (n : Nat) (text : Bytes) : Option UInt8 :=
  let digits := text.take n
  if digits.length = n ∧ digits.all isxdigit then
    some (digits.foldl (fun v b => v * 16 + hexValue b) 0).toUInt8
  else none

/-- What a backslash and `e` stand for, in front of `rest`, and how much of `rest` belongs to
it. -/
def charEscape (e : UInt8) (rest : Bytes) : Option (UInt8 × Nat) :=
  match toChar e with
  | '0' => some (0, 0)
  | 'f' => some (12, 0)
  | 'n' => some (10, 0)
  | 'r' => some (13, 0)
  | 't' => some (9, 0)
  | 'v' => some (11, 0)
  | 'c' => (rest.head?.filter isalpha).map fun letter => (letter % 32, 1)
  | 'x' => (hexChar 2 rest).map fun b => (b, 2)
  | 'u' => (hexChar 4 rest).map fun b => (b, 4)
  | _ => some (e, 0)

def classEscape (e : UInt8) : Option CharSet :=
  match toChar e with
  | 'd' => some isdigit
  | 'D' => some fun b => !isdigit b
  | 's' => some isspace
  | 'S' => some fun b => !isspace b
  | 'w' => some isword
  | 'W' => some fun b => !isword b
  | _ => none

/-- A single character in a bracket, or a set; of the collating elements those with one
character. -/
def classAtom : Bytes → Option ((UInt8 ⊕ CharSet) × Nat)
  | [] => none
  | 92 :: [] => none
  | 92 :: e :: rest =>
    match classEscape e with
    | some set => some (.inr set, 2)
    | none =>
      if toChar e = 'b' then some (.inl 8, 2)
      else (charEscape e rest).map fun p => (.inl p.1, p.2 + 2)
  | 91 :: 58 :: rest => do
    let (name, rest) ← cut 58 rest
    if rest.head? = some 93 then
      (classNames.lookup name).map fun set => (.inr set, name.length + 4)
    else none
  | 91 :: 46 :: c :: 46 :: 93 :: _ => some (.inl c, 5)
  | 91 :: 61 :: c :: 61 :: 93 :: _ => some (.inl c, 5)
  | b :: _ => some (.inl b, 1)

/-- The set up to the closing bracket, on top of `set`, and the length with the bracket. -/
def classRanges : Nat → Bytes → CharSet → Option (CharSet × Nat)
  | 0, _, _ => none
  | fuel + 1, text, set =>
    if text.head? = some 93 then some (set, 1)
    else
      match classAtom text with
      | none => none
      | some (.inr class', n) =>
        (classRanges fuel (text.drop n) fun b => set b || class' b).map fun p => (p.1, p.2 + n)
      | some (.inl low, n) =>
        let rest := text.drop n
        -- a hyphen in front of the closing bracket is a character
        if rest.head? = some 45 ∧ rest.tail.head? ≠ some 93 then
          match classAtom rest.tail with
          | some (.inl high, m) =>
            if low ≤ high then
              (classRanges fuel (rest.tail.drop m) fun b => set b || (low ≤ b && b ≤ high)).map
                fun p => (p.1, p.2 + n + 1 + m)
            else none
          | _ => none
        else (classRanges fuel rest fun b => set b || b = low).map fun p => (p.1, p.2 + n)

/-- A bracket expression behind its `[`. -/
def bracket (rest : Bytes) : Option (CharSet × Nat) :=
  if rest.head? = some 94 then
    (classRanges rest.length rest.tail fun _ => false).map fun p => (fun b => !p.1 b, p.2 + 1)
  else classRanges (rest.length + 1) rest fun _ => false

/-! ## Tokens -/

/-- `{n}`, `{n,}` or `{n,m}` behind its brace. -/
def braces (rest : Bytes) : Option (Nat × Option Nat × Nat) :=
  let low := rest.takeWhile isdigit
  let more := rest.drop low.length
  if low = [] then none
  else if more.head? = some 125 then
    some (decimal low, some (decimal low), low.length + 1)
  else if more.head? = some 44 then
    let high := more.tail.takeWhile isdigit
    if (more.tail.drop high.length).head? ≠ some 125 then none
    else if high = [] then some (decimal low, none, low.length + 2)
    else if decimal low ≤ decimal high then
      some (decimal low, some (decimal high), low.length + high.length + 2)
    else none
  else none

/-- A question mark behind a quantifier makes it take as little as it can. -/
def quantified (min : Nat) (max : Option Nat) (rest : Bytes) (n : Nat) : Token × Nat :=
  if (rest.drop n).head? = some 63 then (.quantifier min max false, n + 1)
  else (.quantifier min max true, n)

def groupKind (rest : Bytes) : GroupKind × Nat :=
  if bytes "?:" <+: rest then (.plain, 2)
  else if bytes "?=" <+: rest then (.ahead false, 2)
  else if bytes "?!" <+: rest then (.ahead true, 2)
  else (.capture, 0)

/-- Behind a backslash. -/
def atomEscape : Bytes → Option (Token × Nat)
  | [] => none
  | e :: rest =>
    if toChar e = 'b' then some (.assertion (.wordBound isword false), 1)
    else if toChar e = 'B' then some (.assertion (.wordBound isword true), 1)
    else if isdigit e ∧ toChar e ≠ '0' then
      let digits := (e :: rest).takeWhile isdigit
      some (.atom (.backref (decimal digits)), digits.length)
    else
      match classEscape e with
      | some set => some (.atom (.chars set), 1)
      | none => (charEscape e rest).map fun p => (.atom (.chars (· = p.1)), p.2 + 1)

def metas : Bytes := bytes "^$\\.*+?()[]\x7b\x7d|"

/-- The token that begins with `b`, in front of `rest`, and how much of `rest` belongs to it. -/
def lexToken (b : UInt8) (rest : Bytes) : Option (Token × Nat) :=
  if b ∉ metas then some (.atom (.chars (· = b)), 0)
  else
    match toChar b with
    | '^' => some (.assertion .lineBegin, 0)
    | '$' => some (.assertion .lineEnd, 0)
    | '.' => some (.atom (.chars fun c => c ≠ LF && c ≠ CR), 0)
    | '|' => some (.bar, 0)
    | ')' => some (.close, 0)
    | '*' => some (quantified 0 none rest 0)
    | '+' => some (quantified 1 none rest 0)
    | '?' => some (quantified 0 (some 1) rest 0)
    | '\x7b' => (braces rest).map fun p => quantified p.1 p.2.1 rest p.2.2
    | '\\' => atomEscape rest
    | '[' => (bracket rest).map fun p => (.atom (.chars p.1), p.2)
    | '(' => some (.opening (groupKind rest).1, (groupKind rest).2)
    | _ => none

def lexFrom : Nat → Bytes → Option (List Token)
  | _, [] => some []
  | 0, _ :: _ => none
  | fuel + 1, b :: rest =>
    (lexToken b rest).bind fun p => (lexFrom fuel (rest.drop p.2)).map (p.1 :: ·)

def lex (text : Bytes) : Option (List Token) := lexFrom text.length text

/-! ## Expressions -/

/-- The inside of a group as far as it is read, the last part first. A term comes with whether a
quantifier may follow it. -/
structure Frame where
  alts : List (Regex UInt8) := []
  terms : List (Regex UInt8 × Bool) := []

/-- The alternative that is being read. -/
def Frame.last (f : Frame) : Regex UInt8 := Regex.seqAll (f.terms.reverse.map Prod.fst)

def Frame.regex (f : Frame) : Regex UInt8 :=
  f.alts.foldl (fun later r => .alt r later) f.last

def Frame.push (f : Frame) (term : Regex UInt8 × Bool) : Frame :=
  { f with terms := term :: f.terms }

def GroupKind.term (i : Nat) (r : Regex UInt8) : GroupKind → Regex UInt8 × Bool
  | .capture => (.group i r, true)
  | .plain => (r, true)
  | .ahead negated => (.look negated r, false)

structure ParseState where
  frame : Frame := {}
  -- what is around the groups that are open, with their kinds and numbers
  opened : List (GroupKind × Nat × Frame) := []
  groups : Nat := 0

def parseToken (st : ParseState) : Token → Option ParseState
  | .atom r => some { st with frame := st.frame.push (r, true) }
  | .assertion r => some { st with frame := st.frame.push (r, false) }
  | .bar => some { st with frame := { alts := st.frame.last :: st.frame.alts } }
  | .opening .capture =>
    some ⟨{}, (.capture, st.groups + 1, st.frame) :: st.opened, st.groups + 1⟩
  | .opening kind => some ⟨{}, (kind, 0, st.frame) :: st.opened, st.groups⟩
  | .close =>
    match st.opened with
    | [] => none
    | (kind, i, frame) :: opened =>
      some { st with frame := frame.push (kind.term i st.frame.regex), opened }
  | .quantifier min max greedy =>
    match st.frame.terms with
    | (r, true) :: terms =>
      some { st with frame.terms := (.quant min max greedy r, false) :: terms }
    | _ => none

def parse (tokens : List Token) : Option (Regex UInt8 × Nat) := do
  let st ← tokens.foldlM parseToken {}
  if st.opened.isEmpty ∧ st.frame.regex.lastBackref ≤ st.groups then
    some (st.frame.regex, st.groups)
  else none

/-- `std::regex(text)`, with the number of its groups. -/
def compile (text : Bytes) : Option (Regex UInt8 × Nat) := (lex text).bind parse

/-! ## Reading plain text and groups -/

theorem meta_cases {b : UInt8} (h : b ∈ metas) : b = 94 ∨ b = 36 ∨ b = 92 ∨ b = 46 ∨ b = 42 ∨
    b = 43 ∨ b = 63 ∨ b = 40 ∨ b = 41 ∨ b = 91 ∨ b = 93 ∨ b = 123 ∨ b = 125 ∨ b = 124 := by
  simpa [metas, bytes] using h

theorem lexFrom_fuel {text : Bytes} {m n : Nat} (hm : text.length ≤ m) (hn : text.length ≤ n) :
    lexFrom m text = lexFrom n text := by
  induction m generalizing n text with
  | zero =>
    rw [List.eq_nil_of_length_eq_zero (Nat.le_zero.mp hm)]
    cases n <;> rfl
  | succ m ih =>
    cases text with
    | nil => cases n <;> rfl
    | cons b rest =>
      cases n with
      | zero => exact absurd hn (Nat.not_succ_le_zero _)
      | succ n =>
        rw [lexFrom, lexFrom]
        congr 1
        funext p
        have hdrop : (rest.drop p.2).length ≤ rest.length := by
          rw [List.length_drop]
          omega
        rw [List.length_cons] at hm hn
        rw [ih (n := n) (by omega) (by omega)]

theorem lex_cons (b : UInt8) (rest : Bytes) : lex (b :: rest) =
    (lexToken b rest).bind fun p => (lex (rest.drop p.2)).map (p.1 :: ·) := by
  rw [lex, List.length_cons, lexFrom]
  congr 1
  funext p
  rw [lex, lexFrom_fuel _ le_rfl]
  rw [List.length_drop]
  omega

def literal (b : UInt8) : Regex UInt8 := .chars (· = b)

theorem lex_literal {text : Bytes} (h : ∀ b ∈ text, b ∉ metas) (rest : Bytes) :
    lex (text ++ rest) = (lex rest).map (text.map (fun b => .atom (literal b)) ++ ·) := by
  induction text with
  | nil => exact Option.map_id'.symm
  | cons b text ih =>
    obtain ⟨hb, htext⟩ := List.forall_mem_cons.mp h
    rw [List.cons_append, lex_cons, lexToken, if_pos hb, Option.bind_some, List.drop_zero,
      ih htext, Option.map_map]
    rfl

def notSlash (b : UInt8) : Bool := !(b = 47)

def segmentTokens : List Token :=
  [.opening .capture, .atom (.chars notSlash), .quantifier 1 none true, .close]

theorem lex_segment (rest : Bytes) :
    lex (bytes "([^/]+)" ++ rest) = (lex rest).map (segmentTokens ++ ·) := by
  have hopen : lexToken 40 (91 :: 94 :: 47 :: 93 :: 43 :: 41 :: rest) =
      some (.opening .capture, 0) := rfl
  have hset : lexToken 91 (94 :: 47 :: 93 :: 43 :: 41 :: rest) =
      some (.atom (.chars notSlash), 3) := rfl
  have hplus : lexToken 43 (41 :: rest) = some (.quantifier 1 none true, 0) := rfl
  have hclose : lexToken 41 rest = some (.close, 0) := rfl
  rw [show bytes "([^/]+)" ++ rest = 40 :: 91 :: 94 :: 47 :: 93 :: 43 :: 41 :: rest from rfl,
    lex_cons, hopen, Option.bind_some, List.drop_zero, lex_cons, hset, Option.bind_some,
    show (94 :: 47 :: 93 :: 43 :: 41 :: rest).drop 3 = 43 :: 41 :: rest from rfl, lex_cons, hplus,
    Option.bind_some, List.drop_zero, lex_cons, hclose, Option.bind_some, List.drop_zero]
  simp only [Option.map_map]
  rfl

/-- These terms read, and `k` groups more. -/
def ParseState.pushAll (st : ParseState) (terms : List (Regex UInt8)) (k : Nat) : ParseState :=
  { st with
    frame.terms := (terms.map (·, true)).reverse ++ st.frame.terms
    groups := st.groups + k }

theorem pushAll_pushAll (st : ParseState) (terms terms' : List (Regex UInt8)) (k k' : Nat) :
    (st.pushAll terms k).pushAll terms' k' = st.pushAll (terms ++ terms') (k + k') := by
  simp [ParseState.pushAll, Nat.add_assoc]

theorem parse_literal (text : Bytes) (st : ParseState) :
    (text.map fun b => Token.atom (literal b)).foldlM parseToken st =
      some (st.pushAll (text.map literal) 0) := by
  induction text generalizing st with
  | nil => rfl
  | cons b text ih =>
    rw [List.map_cons, List.foldlM_cons, parseToken, Option.bind_eq_bind, Option.bind_some, ih]
    exact congrArg some (pushAll_pushAll st [literal b] (text.map literal) 0 0)

/-- The capturing group number `i` around a segment. -/
def segmentGroup (i : Nat) : Regex UInt8 := .group i (.seqAll [.plus notSlash])

theorem parse_segment (st : ParseState) : segmentTokens.foldlM parseToken st =
    some (st.pushAll [segmentGroup (st.groups + 1)] 1) := rfl

theorem mem_run_regex (f : Frame) (x y : Cursor UInt8) :
    y ∈ f.regex.run x ↔ (∃ r ∈ f.alts, y ∈ r.run x) ∨ y ∈ f.last.run x := by
  have hfold (alts : List (Regex UInt8)) (last : Regex UInt8) :
      y ∈ (alts.foldl (fun later r => Regex.alt r later) last).run x ↔
        (∃ r ∈ alts, y ∈ r.run x) ∨ y ∈ last.run x := by
    induction alts generalizing last with
    | nil => simp
    | cons r alts ih =>
      rw [List.foldl_cons, ih, Regex.run, List.mem_append, List.exists_mem_cons_iff]
      exact or_left_comm.trans or_assoc.symm
  exact hfold f.alts f.last

/-! ## Texts up to a slash -/

section Slash

variable (rest text : Bytes)

theorem takeWhile_slash {p : CharSet} (h : p 47 = false) :
    (rest ++ 47 :: text).takeWhile p = rest.takeWhile p := by
  induction rest with
  | nil => rw [List.nil_append, List.takeWhile_cons, h]; rfl
  | cons b rest ih =>
    rw [List.cons_append, List.takeWhile_cons, List.takeWhile_cons, ih]

theorem drop_slash {n : Nat} (h : n ≤ rest.length) :
    (rest ++ 47 :: text).drop n = rest.drop n ++ 47 :: text :=
  List.drop_append_of_le_length h

theorem head?_slash {b : UInt8} (h : b ≠ 47) :
    (rest ++ 47 :: text).head? = some b ↔ rest.head? = some b := by
  cases rest with
  | nil => simp [h.symm]
  | cons c rest => rfl

theorem quantified_slash (min : Nat) (max : Option Nat) {n : Nat} (h : n ≤ rest.length) :
    quantified min max (rest ++ 47 :: text) n = quantified min max rest n ∧
      (quantified min max rest n).2 ≤ rest.length := by
  have hhead : ((rest ++ 47 :: text).drop n).head? = some 63 ↔ (rest.drop n).head? = some 63 := by
    rw [drop_slash rest text h]
    exact head?_slash _ _ (by decide)
  simp only [quantified, hhead]
  refine ⟨trivial, ?_⟩
  split_ifs with hlazy
  · have hlt : n < rest.length := by
      by_contra hge
      rw [List.drop_eq_nil_of_le (Nat.le_of_not_lt hge)] at hlazy
      exact absurd hlazy (Option.some_ne_none _).symm
    exact hlt
  · exact h

theorem length_pos_of_head? {b : UInt8} (h : rest.head? = some b) : 0 < rest.length := by
  cases rest with
  | nil => exact absurd h (Option.some_ne_none _).symm
  | cons c rest => exact Nat.succ_pos _

theorem braces_slash : braces (rest ++ 47 :: text) = braces rest ∧
    ∀ p ∈ braces rest, p.2.2 ≤ rest.length := by
  have hdigit : isdigit 47 = false := by decide
  have hlow := (List.takeWhile_sublist isdigit (l := rest)).length_le
  have hmore : (rest.drop (rest.takeWhile isdigit).length).length =
      rest.length - (rest.takeWhile isdigit).length := List.length_drop
  rw [braces, takeWhile_slash rest text hdigit, braces]
  dsimp only
  rw [drop_slash rest text hlow]
  generalize rest.drop (rest.takeWhile isdigit).length = more at *
  simp only [head?_slash _ _ (by decide : (125 : UInt8) ≠ 47),
    head?_slash _ _ (by decide : (44 : UInt8) ≠ 47)]
  by_cases hcomma : more.head? = some 44
  · have hpos := length_pos_of_head? _ hcomma
    have htail : (more ++ 47 :: text).tail = more.tail ++ 47 :: text :=
      List.tail_append_of_ne_nil (List.ne_nil_of_length_pos hpos)
    have hhigh := (List.takeWhile_sublist isdigit (l := more.tail)).length_le
    have hlength : more.tail.length = more.length - 1 := List.length_tail
    rw [htail, takeWhile_slash more.tail text hdigit, drop_slash more.tail text hhigh]
    simp only [ne_eq, head?_slash _ _ (by decide : (125 : UInt8) ≠ 47)]
    refine ⟨trivial, fun p hp => ?_⟩
    split_ifs at hp with _ _ hclosed
    · exact absurd hp (Option.not_mem_none p)
    · obtain rfl := Option.some.inj hp
      dsimp only
      omega
    · have hbrace := length_pos_of_head? _ hclosed
      rw [List.length_drop] at hbrace
      obtain rfl := Option.some.inj hp
      dsimp only
      omega
    · have hbrace := length_pos_of_head? _ hclosed
      rw [List.length_drop] at hbrace
      obtain rfl := Option.some.inj hp
      dsimp only
      omega
    · exact absurd hp (Option.not_mem_none p)
    · exact absurd hp (Option.not_mem_none p)
  · simp only [if_neg hcomma]
    refine ⟨trivial, fun p hp => ?_⟩
    split_ifs at hp with _ hclosed
    · exact absurd hp (Option.not_mem_none p)
    · obtain rfl := Option.some.inj hp
      have hpos := length_pos_of_head? _ hclosed
      dsimp only
      omega
    · exact absurd hp (Option.not_mem_none p)

theorem groupKind_slash : groupKind (rest ++ 47 :: text) = groupKind rest ∧
    (groupKind rest).2 ≤ rest.length := by
  simp only [groupKind, prefix_append_cons (by decide : 47 ∉ bytes "?:"),
    prefix_append_cons (by decide : 47 ∉ bytes "?="),
    prefix_append_cons (by decide : 47 ∉ bytes "?!")]
  refine ⟨trivial, ?_⟩
  split_ifs with hplain hahead hnegated
  · exact hplain.length_le
  · exact hahead.length_le
  · exact hnegated.length_le
  · exact Nat.zero_le _

/-- What is read in front of a slash does not go over it. -/
def StopsAtSlash (rest text : Bytes) (read : Bytes → Option (Token × Nat)) : Prop :=
  read (rest ++ 47 :: text) = read rest ∧ ∀ p ∈ read rest, p.2 ≤ rest.length

theorem stopsAtSlash_const (t : Token) : StopsAtSlash rest text fun _ => some (t, 0) :=
  ⟨rfl, fun _ hp => Option.some.inj hp ▸ Nat.zero_le _⟩

theorem stopsAtSlash_none : StopsAtSlash rest text fun _ => none :=
  ⟨rfl, fun p hp => absurd hp (Option.not_mem_none p)⟩

theorem stopsAtSlash_quantified (min : Nat) (max : Option Nat) :
    StopsAtSlash rest text fun rest => some (quantified min max rest 0) := by
  obtain ⟨hquantified, hlength⟩ := quantified_slash rest text min max (Nat.zero_le _)
  exact ⟨congrArg some hquantified, fun p hp => Option.some.inj hp ▸ hlength⟩

theorem stopsAtSlash_braces : StopsAtSlash rest text fun rest =>
    (braces rest).map fun p => quantified p.1 p.2.1 rest p.2.2 := by
  obtain ⟨hbraces, hlength⟩ := braces_slash rest text
  rw [StopsAtSlash, hbraces]
  cases h : braces rest with
  | none => exact ⟨rfl, fun p hp => absurd hp (Option.not_mem_none p)⟩
  | some q =>
    obtain ⟨hquantified, hbound⟩ := quantified_slash rest text q.1 q.2.1 (hlength q h)
    exact ⟨congrArg some hquantified, fun p hp => Option.some.inj hp ▸ hbound⟩

theorem stopsAtSlash_groupKind : StopsAtSlash rest text fun rest =>
    some (.opening (groupKind rest).1, (groupKind rest).2) := by
  obtain ⟨hkind, hlength⟩ := groupKind_slash rest text
  rw [StopsAtSlash, hkind]
  exact ⟨rfl, fun p hp => Option.some.inj hp ▸ hlength⟩

theorem lexToken_slash {b : UInt8} (hset : b ≠ 91) (hescape : b ≠ 92) :
    StopsAtSlash rest text (lexToken b) := by
  by_cases hmeta : b ∈ metas
  · rcases meta_cases hmeta with rfl | rfl | rfl | rfl | rfl | rfl | rfl | rfl | rfl | rfl | rfl | rfl
      | rfl | rfl
    · exact stopsAtSlash_const rest text (.assertion .lineBegin)
    · exact stopsAtSlash_const rest text (.assertion .lineEnd)
    · exact absurd rfl hescape
    · exact stopsAtSlash_const rest text (.atom (.chars fun c => c ≠ LF && c ≠ CR))
    · exact stopsAtSlash_quantified rest text 0 none
    · exact stopsAtSlash_quantified rest text 1 none
    · exact stopsAtSlash_quantified rest text 0 (some 1)
    · exact stopsAtSlash_groupKind rest text
    · exact stopsAtSlash_const rest text .close
    · exact absurd rfl hset
    · exact stopsAtSlash_none rest text
    · exact stopsAtSlash_braces rest text
    · exact stopsAtSlash_none rest text
    · exact stopsAtSlash_const rest text .bar
  · have hread : lexToken b = fun _ => some (.atom (literal b), 0) := by
      funext rest
      rw [lexToken, if_pos hmeta]
      rfl
    rw [hread]
    exact stopsAtSlash_const rest text _

/-- The tokens before a slash, and those behind it. -/
theorem lex_slash (hset : 91 ∉ rest) (hescape : 92 ∉ rest) : lex (rest ++ 47 :: text) =
    (lex rest).bind fun ts => (lex (47 :: text)).map (ts ++ ·) := by
  induction hlen : rest.length using Nat.strongRecOn generalizing rest with
  | _ k ih =>
    cases rest with
    | nil => exact Option.map_id'.symm
    | cons b rest =>
      obtain ⟨hb, hset⟩ := List.ne_and_not_mem_of_not_mem_cons hset
      obtain ⟨hb', hescape⟩ := List.ne_and_not_mem_of_not_mem_cons hescape
      obtain ⟨htoken, hlength⟩ := lexToken_slash rest text hb.symm hb'.symm
      rw [List.cons_append, lex_cons, lex_cons, htoken]
      cases hread : lexToken b rest with
      | none => rfl
      | some p =>
        have hshorter : (rest.drop p.2).length < k := by
          rw [← hlen, List.length_drop, List.length_cons]
          omega
        have hdrop := ih _ hshorter (rest.drop p.2) (fun h => hset (List.mem_of_mem_drop h))
          (fun h => hescape (List.mem_of_mem_drop h)) rfl
        rw [Option.bind_some, Option.bind_some, drop_slash rest text (hlength p hread), hdrop]
        cases lex (rest.drop p.2) with
        | none => rfl
        | some ts => cases lex (47 :: text) <;> rfl

end Slash

/-! ## Characters that are not told apart -/

section Invariance

variable {π : UInt8 → UInt8}

/-- A set with just this character does not tell any two apart. -/
def Keeps (π : UInt8 → UInt8) (b : UInt8) : Prop := ∀ c, π c = b ↔ c = b

theorem Keeps.notSlash (h : Keeps π 47) (c : UInt8) : notSlash (π c) = notSlash c := by
  simp only [RegexText.notSlash, h c]

/-- Nothing in the text tells characters apart: there is no escape, and no set but `[^/]`. -/
def TextInvariant (π : UInt8 → UInt8) (text : Bytes) : Prop :=
  ∀ b rest, b :: rest <:+ text →
    b ≠ 92 ∧ (b ∉ metas → Keeps π b) ∧ (b = 91 → bytes "^/]" <+: rest ∧ Keeps π 47)

theorem TextInvariant.drop {text : Bytes} (h : TextInvariant π text) (n : Nat) :
    TextInvariant π (text.drop n) :=
  fun b rest hrest => h b rest (hrest.trans (List.drop_suffix n text))

theorem textInvariant_nil : TextInvariant π [] :=
  fun _ _ h => absurd (List.suffix_nil.mp h) (List.cons_ne_nil _ _)

theorem textInvariant_cons {b : UInt8} {rest : Bytes} (hescape : b ≠ 92)
    (hkeeps : b ∉ metas → Keeps π b) (hset : b = 91 → bytes "^/]" <+: rest ∧ Keeps π 47)
    (h : TextInvariant π rest) : TextInvariant π (b :: rest) := by
  intro b' rest' hsuffix
  rcases List.suffix_cons_iff.mp hsuffix with heq | hrest
  · obtain ⟨rfl, rfl⟩ := List.cons.inj heq
    exact ⟨hescape, hkeeps, hset⟩
  · exact h b' rest' hrest

theorem textInvariant_append {text rest : Bytes} (hset : 91 ∉ text) (hescape : 92 ∉ text)
    (hkeeps : ∀ b ∈ text, b ∉ metas → Keeps π b) (h : TextInvariant π rest) :
    TextInvariant π (text ++ rest) := by
  induction text with
  | nil => exact h
  | cons b text ih =>
    obtain ⟨hb, hset⟩ := List.ne_and_not_mem_of_not_mem_cons hset
    obtain ⟨hb', hescape⟩ := List.ne_and_not_mem_of_not_mem_cons hescape
    obtain ⟨hkeep, hkeeps⟩ := List.forall_mem_cons.mp hkeeps
    exact textInvariant_cons hb'.symm hkeep (fun heq => absurd heq.symm hb)
      (ih hset hescape hkeeps)

theorem textInvariant_segment {rest : Bytes} (hslash : Keeps π 47) (h : TextInvariant π rest) :
    TextInvariant π (bytes "([^/]+)" ++ rest) := by
  have hkeeps : ∀ b ∈ [(94 : UInt8), 47, 93, 43, 41], b ∉ metas → Keeps π b := by
    intro b hb hmeta
    simp only [List.mem_cons, List.not_mem_nil, or_false] at hb
    rcases hb with rfl | rfl | rfl | rfl | rfl
    · exact absurd (by decide) hmeta
    · exact hslash
    · exact absurd (by decide) hmeta
    · exact absurd (by decide) hmeta
    · exact absurd (by decide) hmeta
  have hback : TextInvariant π ([94, 47, 93, 43, 41] ++ rest) :=
    textInvariant_append (by decide) (by decide) hkeeps h
  have hset : TextInvariant π (91 :: ([94, 47, 93, 43, 41] ++ rest)) :=
    textInvariant_cons (by decide) (fun hb => absurd (by decide) hb)
      (fun _ => ⟨⟨43 :: 41 :: rest, rfl⟩, hslash⟩) hback
  exact textInvariant_cons (by decide) (fun hb => absurd (by decide) hb)
    (fun heq => absurd heq (by decide)) hset

def Token.Invariant (π : UInt8 → UInt8) : Token → Prop
  | .atom r | .assertion r => r.Invariant π
  | _ => True

def Frame.Invariant (π : UInt8 → UInt8) (f : Frame) : Prop :=
  (∀ r ∈ f.alts, r.Invariant π) ∧ ∀ t ∈ f.terms, t.1.Invariant π

def ParseState.Invariant (π : UInt8 → UInt8) (st : ParseState) : Prop :=
  st.frame.Invariant π ∧ ∀ o ∈ st.opened, o.2.2.Invariant π

theorem quantified_invariant {min : Nat} {max : Option Nat} {rest : Bytes} {k n : Nat} {t : Token}
    (h : quantified min max rest k = (t, n)) : t.Invariant π := by
  rw [quantified] at h
  split_ifs at h <;> rw [← (Prod.mk.inj h).1] <;> trivial

theorem lexToken_invariant (hlf : Keeps π LF) (hcr : Keeps π CR) {b : UInt8} {rest : Bytes}
    (hescape : b ≠ 92) (hkeeps : b ∉ metas → Keeps π b)
    (hset : b = 91 → bytes "^/]" <+: rest ∧ Keeps π 47) {t : Token} {n : Nat}
    (h : lexToken b rest = some (t, n)) : t.Invariant π := by
  by_cases hmeta : b ∈ metas
  · rcases meta_cases hmeta with rfl | rfl | rfl | rfl | rfl | rfl | rfl | rfl | rfl | rfl | rfl | rfl | rfl
      | rfl
    · obtain ⟨rfl, -⟩ := Prod.mk.inj (Option.some.inj h)
      trivial
    · obtain ⟨rfl, -⟩ := Prod.mk.inj (Option.some.inj h)
      trivial
    · exact absurd rfl hescape
    · obtain ⟨rfl, -⟩ := Prod.mk.inj (Option.some.inj h)
      intro c
      simp only [ne_eq, hlf c, hcr c]
    · exact quantified_invariant (Option.some.inj h)
    · exact quantified_invariant (Option.some.inj h)
    · exact quantified_invariant (Option.some.inj h)
    · obtain ⟨rfl, -⟩ := Prod.mk.inj (Option.some.inj h)
      trivial
    · obtain ⟨rfl, -⟩ := Prod.mk.inj (Option.some.inj h)
      trivial
    · obtain ⟨⟨rest, rfl⟩, hslash⟩ := hset rfl
      have hlex : lexToken 91 (bytes "^/]" ++ rest) = some (.atom (.chars notSlash), 3) := rfl
      obtain ⟨rfl, -⟩ := Prod.mk.inj (Option.some.inj (hlex.symm.trans h))
      exact hslash.notSlash
    · exact absurd h (Option.some_ne_none _).symm
    · obtain ⟨p, -, hp⟩ := Option.map_eq_some_iff.mp h
      exact quantified_invariant hp
    · exact absurd h (Option.some_ne_none _).symm
    · obtain ⟨rfl, -⟩ := Prod.mk.inj (Option.some.inj h)
      trivial
  · rw [lexToken, if_pos hmeta] at h
    obtain ⟨rfl, -⟩ := Prod.mk.inj (Option.some.inj h)
    exact fun c => decide_eq_decide.mpr (hkeeps hmeta c)

theorem lexFrom_invariant (hlf : Keeps π LF) (hcr : Keeps π CR) {fuel : Nat} {text : Bytes}
    (htext : TextInvariant π text) {ts : List Token}
    (h : lexFrom fuel text = some ts) : ∀ t ∈ ts, t.Invariant π := by
  induction fuel generalizing text ts with
  | zero =>
    cases text with
    | nil => exact fun t ht => absurd (Option.some.inj h ▸ ht) List.not_mem_nil
    | cons b rest => exact absurd h (Option.some_ne_none _).symm
  | succ fuel ih =>
    cases text with
    | nil => exact fun t ht => absurd (Option.some.inj h ▸ ht) List.not_mem_nil
    | cons b rest =>
      rw [lexFrom] at h
      obtain ⟨⟨t, n⟩, htoken, hrest⟩ := Option.bind_eq_some_iff.mp h
      obtain ⟨ts, hts, rfl⟩ := Option.map_eq_some_iff.mp hrest
      obtain ⟨hescape, hkeeps, hset⟩ := htext b rest List.suffix_rfl
      exact List.forall_mem_cons.mpr ⟨lexToken_invariant hlf hcr hescape hkeeps hset htoken,
        ih (htext.drop (n + 1)) hts⟩

theorem seqAll_invariant {rs : List (Regex UInt8)} (h : ∀ r ∈ rs, r.Invariant π) :
    (Regex.seqAll rs).Invariant π := by
  induction rs with
  | nil => trivial
  | cons r rs ih =>
    obtain ⟨hr, hrs⟩ := List.forall_mem_cons.mp h
    exact ⟨hr, ih hrs⟩

theorem Frame.Invariant.last {f : Frame} (h : f.Invariant π) : f.last.Invariant π := by
  refine seqAll_invariant fun r hr => ?_
  obtain ⟨t, ht, rfl⟩ := List.mem_map.mp hr
  exact h.2 t (List.mem_reverse.mp ht)

theorem Frame.Invariant.regex {f : Frame} (h : f.Invariant π) : f.regex.Invariant π := by
  have hfold (alts : List (Regex UInt8)) (r : Regex UInt8) (hr : r.Invariant π)
      (halts : ∀ a ∈ alts, a.Invariant π) :
      (alts.foldl (fun later a => Regex.alt a later) r).Invariant π := by
    induction alts generalizing r with
    | nil => exact hr
    | cons a alts ih =>
      obtain ⟨ha, halts⟩ := List.forall_mem_cons.mp halts
      exact ih _ ⟨ha, hr⟩ halts
  exact hfold f.alts f.last h.last h.1

theorem Frame.Invariant.push {f : Frame} (h : f.Invariant π) {term : Regex UInt8 × Bool}
    (hterm : term.1.Invariant π) : (f.push term).Invariant π :=
  ⟨h.1, List.forall_mem_cons.mpr ⟨hterm, h.2⟩⟩

theorem parseToken_invariant {st st' : ParseState} (hst : st.Invariant π) {t : Token}
    (ht : t.Invariant π) (h : parseToken st t = some st') : st'.Invariant π := by
  cases t with
  | atom r =>
    obtain rfl := Option.some.inj h
    exact ⟨hst.1.push ht, hst.2⟩
  | assertion r =>
    obtain rfl := Option.some.inj h
    exact ⟨hst.1.push ht, hst.2⟩
  | bar =>
    obtain rfl := Option.some.inj h
    exact ⟨⟨List.forall_mem_cons.mpr ⟨hst.1.last, hst.1.1⟩, fun t ht => absurd ht List.not_mem_nil⟩,
      hst.2⟩
  | opening kind =>
    have hempty : ({} : Frame).Invariant π :=
      ⟨fun r hr => absurd hr List.not_mem_nil, fun t ht => absurd ht List.not_mem_nil⟩
    cases kind <;> obtain rfl := Option.some.inj h <;>
      exact ⟨hempty, List.forall_mem_cons.mpr hst⟩
  | close =>
    obtain ⟨frame, opened, groups⟩ := st
    cases opened with
    | nil => exact absurd h (Option.some_ne_none _).symm
    | cons o opened =>
      obtain ⟨kind, i, outer⟩ := o
      obtain rfl := Option.some.inj h
      obtain ⟨houter, hopened⟩ := List.forall_mem_cons.mp hst.2
      have hterm : (kind.term i frame.regex).1.Invariant π := by
        cases kind <;> exact hst.1.regex
      exact ⟨houter.push hterm, hopened⟩
  | quantifier min max greedy =>
    rw [parseToken] at h
    split at h
    · next r terms hterms =>
      obtain rfl := Option.some.inj h
      obtain ⟨hr, hrest⟩ := List.forall_mem_cons.mp (hterms ▸ hst.1.2)
      exact ⟨⟨hst.1.1, List.forall_mem_cons.mpr ⟨hr, hrest⟩⟩, hst.2⟩
    · exact absurd h (Option.some_ne_none _).symm

theorem foldlM_invariant {st st' : ParseState} (hst : st.Invariant π) {ts : List Token}
    (hts : ∀ t ∈ ts, t.Invariant π) (h : ts.foldlM parseToken st = some st') :
    st'.Invariant π := by
  induction ts generalizing st with
  | nil => exact Option.some.inj h ▸ hst
  | cons t ts ih =>
    obtain ⟨ht, hts⟩ := List.forall_mem_cons.mp hts
    rw [List.foldlM_cons] at h
    obtain ⟨st₁, hstep, hrest⟩ := Option.bind_eq_some_iff.mp h
    exact ih (parseToken_invariant hst ht hstep) hts hrest

theorem parseState_invariant : ({} : ParseState).Invariant π :=
  ⟨⟨fun _ h => absurd h List.not_mem_nil, fun _ h => absurd h List.not_mem_nil⟩,
    fun _ h => absurd h List.not_mem_nil⟩

theorem compile_invariant (hlf : Keeps π LF) (hcr : Keeps π CR) {text : Bytes}
    (htext : TextInvariant π text) {regex : Regex UInt8 × Nat} (h : compile text = some regex) :
    regex.1.Invariant π := by
  obtain ⟨ts, hts, hparse⟩ := Option.bind_eq_some_iff.mp h
  obtain ⟨st, hst, hregex⟩ := Option.bind_eq_some_iff.mp hparse
  have hinv := foldlM_invariant parseState_invariant (lexFrom_invariant hlf hcr htext hts) hst
  split_ifs at hregex
  obtain rfl := Option.some.inj hregex
  exact hinv.1.regex

end Invariance

end RegexText

/-! ## `std::regex` -/

/-- `regex_match`, with the texts of the groups. A group that took no part has an empty text. -/
def regexMatch (regex : Workplace.Lib.Regex UInt8 × Nat) (text : Bytes) : Option (List Bytes) :=
  (regex.1.fullMatch text).map fun y =>
    (List.range regex.2).map fun i => (y.captures (i + 1)).getD []

end Workplace.Http
