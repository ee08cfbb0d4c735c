import Mathlib.Data.Finmap
import Mathlib.Data.List.DropRight
import Mathlib.Tactic

/-! Byte strings, and the parts of the C++ library and of muduo's `Buffer` that the
HTTP code reads them with. A buffer is the list of its readable bytes: `findCRLF`
answers an offset from `peek()`, `retrieve` drops a front part. -/

namespace Workplace.Http

abbrev Bytes := List UInt8

def bytes (s : String) : Bytes := s.toList.map fun c => c.toNat.toUInt8

/-- `std::map` and `std::unordered_map` from strings to strings. -/
abbrev StrMap := Finmap (fun _ : Bytes => Bytes)

/-- What `getHeader` and its siblings do: the value, or the empty string. -/
def StrMap.get (m : StrMap) (key : Bytes) : Bytes := (m.lookup key).getD []

/-- The exceptions of the C++ library that the code can meet. -/
inductive StdException where
  | invalidArgument
  | outOfRange
  deriving DecidableEq, Repr

abbrev CR : UInt8 := 13
abbrev LF : UInt8 := 10

/-- `std::find(start, end, c)`: the bytes before the first `c` and those after it. -/
def cut (c : UInt8) : Bytes → Option (Bytes × Bytes)
  | [] => none
  | b :: bs => if b = c then some ([], bs) else (cut c bs).map fun p => (b :: p.1, p.2)

theorem cut_eq_some {c : UInt8} {bs x y : Bytes} :
    cut c bs = some (x, y) ↔ c ∉ x ∧ bs = x ++ c :: y := by
  induction bs generalizing x y with
  | nil => simp [cut]
  | cons b bs ih =>
    rw [cut]
    split_ifs with hb
    · subst hb
      constructor
      · rintro ⟨⟩
        exact ⟨List.not_mem_nil, rfl⟩
      · rintro ⟨hx, heq⟩
        cases x with
        | nil => rw [(List.cons.inj heq).2]
        | cons b' x => exact absurd ((List.cons.inj heq).1 ▸ List.mem_cons_self) hx
    · simp only [Option.map_eq_some_iff, Prod.mk.injEq, Prod.exists, ih]
      constructor
      · rintro ⟨x, y, ⟨hx, rfl⟩, rfl, rfl⟩
        exact ⟨List.not_mem_cons_of_ne_of_not_mem (Ne.symm hb) hx, rfl⟩
      · rintro ⟨hx, heq⟩
        cases x with
        | nil => exact absurd (List.cons.inj heq).1 hb
        | cons b' x =>
          obtain ⟨rfl, rfl⟩ := List.cons.inj heq
          exact ⟨x, y, ⟨fun h => hx (List.mem_cons_of_mem b h), rfl⟩, rfl, rfl⟩

theorem cut_append {c : UInt8} {x : Bytes} (h : c ∉ x) (y : Bytes) :
    cut c (x ++ c :: y) = some (x, y) := cut_eq_some.mpr ⟨h, rfl⟩

theorem cut_eq_none {c : UInt8} {bs : Bytes} : cut c bs = none ↔ c ∉ bs := by
  induction bs with
  | nil => simp [cut]
  | cons b bs ih =>
    rw [cut, List.mem_cons, not_or]
    split_ifs with hb
    · simp [hb]
    · rw [Option.map_eq_none_iff, ih, and_iff_right (Ne.symm hb)]

/-- A text without `c` is in front of another one up to its first `c`, if at all. -/
theorem prefix_append_cons {needle : Bytes} {c : UInt8} (hc : c ∉ needle) (text rest : Bytes) :
    needle <+: text ++ c :: rest ↔ needle <+: text := by
  refine ⟨fun h => ?_, fun h => h.trans (List.prefix_append text _)⟩
  rcases Nat.lt_or_ge text.length needle.length with hlt | hle
  · have hshort : (text ++ [c]).length ≤ needle.length := by simpa using hlt
    have hwhole : text ++ [c] <+: text ++ c :: rest := ⟨rest, by simp⟩
    have hmem : text ++ [c] <+: needle := List.prefix_of_prefix_length_le hwhole h hshort
    exact absurd (hmem.subset (by simp)) hc
  · exact List.prefix_of_prefix_length_le h (List.prefix_append text _) hle

def isspace (b : UInt8) : Bool := b = 32 || (9 ≤ b && b ≤ 13)

def isdigit (b : UInt8) : Bool := 48 ≤ b && b ≤ 57

def decimal (ds : Bytes) : Nat := ds.foldl (fun n d => n * 10 + (d.toNat - 48)) 0

/-- `std::stoi`: blanks, a sign, digits; what follows the digits is not looked at. -/
def stoi (s : Bytes) : Except StdException Int :=
  let s := s.dropWhile isspace
  let negative := s.head? = some 45
  let s := if s.head? = some 45 ∨ s.head? = some 43 then s.tail else s
  let digits := s.takeWhile isdigit
  if digits = [] then .error .invalidArgument
  else
    let value : Int := if negative then -(decimal digits : Int) else decimal digits
    if value < -2 ^ 31 ∨ 2 ^ 31 - 1 < value then .error .outOfRange else .ok value

def toUInt64 (i : Int) : Nat := (i % 2 ^ 64).toNat

/-- `Buffer::findCRLF`: the offset of the first CR LF in the readable bytes. -/
def findCRLF : Bytes → Option Nat
  | [] => none
  | b :: bs => if b = CR ∧ bs.head? = some LF then some 0 else (findCRLF bs).map (· + 1)

theorem findCRLF_bound {b : Bytes} {i : Nat} (h : findCRLF b = some i) : i + 2 ≤ b.length := by
  induction b generalizing i with
  | nil => simp [findCRLF] at h
  | cons x xs ih =>
    simp only [findCRLF] at h
    split_ifs at h with hx
    · cases xs with
      | nil => simp at hx
      | cons y ys =>
        obtain rfl := Option.some.inj h
        simp
    · obtain ⟨j, hj, rfl⟩ := Option.map_eq_some_iff.mp h
      have := ih hj
      simp only [List.length_cons]
      omega

theorem findCRLF_append {b : Bytes} {i : Nat} (x : Bytes) (h : findCRLF b = some i) :
    findCRLF (b ++ x) = some i := by
  induction b generalizing i with
  | nil => simp [findCRLF] at h
  | cons y ys ih =>
    simp only [findCRLF] at h
    split_ifs at h with hy
    · cases ys with
      | nil => simp at hy
      | cons z zs =>
        simp only [List.head?_cons] at hy
        obtain rfl := Option.some.inj h
        simp [findCRLF, hy]
    · obtain ⟨j, hj, rfl⟩ := Option.map_eq_some_iff.mp h
      have hys : ys ≠ [] := by rintro rfl; simp [findCRLF] at hj
      have hhead : (ys ++ x).head? = ys.head? := by
        cases ys with
        | nil => exact absurd rfl hys
        | cons z zs => rfl
      simp [findCRLF, hhead, hy, ih hj]

theorem take_findCRLF_append {b : Bytes} {i : Nat} (x : Bytes) (h : findCRLF b = some i) :
    (b ++ x).take i = b.take i := by
  have hle := findCRLF_bound h
  exact List.take_append_of_le_length (by omega)

theorem drop_findCRLF_append {b : Bytes} {i : Nat} (x : Bytes) (h : findCRLF b = some i) :
    (b ++ x).drop (i + 2) = b.drop (i + 2) ++ x :=
  List.drop_append_of_le_length (findCRLF_bound h)

theorem findCRLF_cons_eq_none {b : UInt8} {bs : Bytes} :
    findCRLF (b :: bs) = none ↔ ¬ (b = CR ∧ bs.head? = some LF) ∧ findCRLF bs = none := by
  rw [findCRLF]
  split_ifs with h
  · simp [h]
  · simp [h]

/-- A line ends at the first CR LF after it. -/
theorem findCRLF_line {line : Bytes} (h : findCRLF line = none) (rest : Bytes) :
    findCRLF (line ++ CR :: LF :: rest) = some line.length := by
  induction line with
  | nil => rfl
  | cons b bs ih =>
    obtain ⟨hb, hbs⟩ := findCRLF_cons_eq_none.mp h
    have hhead : ¬ (b = CR ∧ (bs ++ CR :: LF :: rest).head? = some LF) := by
      cases bs with
      | nil => exact fun h => absurd (Option.some.inj h.2 : CR = LF) (by decide)
      | cons c cs => exact hb
    rw [List.cons_append, findCRLF, if_neg hhead, ih hbs]
    rfl

/-- A byte between two texts that is in no CR LF. -/
theorem findCRLF_between {c : UInt8} (hcr : c ≠ CR) (hlf : c ≠ LF) {x y : Bytes} :
    findCRLF (x ++ c :: y) = none ↔ findCRLF x = none ∧ findCRLF y = none := by
  induction x with
  | nil =>
    rw [List.nil_append, findCRLF_cons_eq_none]
    simp [hcr, findCRLF]
  | cons b bs ih =>
    have hhead : (bs ++ c :: y).head? = some LF ↔ bs.head? = some LF := by
      cases bs with
      | nil => simp [hlf]
      | cons d ds => rfl
    rw [List.cons_append, findCRLF_cons_eq_none, findCRLF_cons_eq_none, hhead, ih, and_assoc]

/-! ## Numbers as texts -/

theorem toNat_of_isDigit {c : Char} (h : c.isDigit) :
    c.toNat.toUInt8.toNat = c.toNat ∧ 48 ≤ c.toNat ∧ c.toNat ≤ 57 := by
  obtain ⟨hlow, hhigh⟩ : 48 ≤ c.toNat ∧ c.toNat ≤ 57 := Char.isDigit_iff_toNat.mp h
  have hmod : c.toNat % 256 = c.toNat := Nat.mod_eq_of_lt (by omega)
  exact ⟨by simpa using hmod, hlow, hhigh⟩

theorem bytes_repr (n : Nat) :
    bytes n.repr = (Nat.toDigits 10 n).map fun c => c.toNat.toUInt8 := by
  rw [bytes, Nat.toList_repr]

theorem isdigit_of_mem_repr {n : Nat} {b : UInt8} (h : b ∈ bytes n.repr) : isdigit b = true := by
  rw [bytes_repr] at h
  obtain ⟨c, hc, rfl⟩ := List.mem_map.mp h
  obtain ⟨heq, hlow, hhigh⟩ :=
    toNat_of_isDigit (Nat.isDigit_of_mem_toDigits (by decide) (by decide) hc)
  simp only [isdigit, Bool.and_eq_true, decide_eq_true_eq, UInt8.le_iff_toNat_le, heq]
  exact ⟨hlow, hhigh⟩

theorem decimal_repr (n : Nat) : decimal (bytes n.repr) = n := by
  have hfold : decimal (bytes n.repr) = Nat.ofDigitChars 10 (Nat.toDigits 10 n) 0 := by
    rw [decimal, bytes_repr, List.foldl_map, Nat.ofDigitChars_eq_foldl]
    refine List.foldl_ext _ _ _ fun k c hc => ?_
    have heq := (toNat_of_isDigit (Nat.isDigit_of_mem_toDigits (by decide) (by decide) hc)).1
    rw [heq, Nat.mul_comm]
    rfl
  rw [hfold, Nat.ofDigitChars_ten_toDigits]

theorem bytes_append (s t : String) : bytes (s ++ t) = bytes s ++ bytes t := by
  rw [bytes, String.toList_append, List.map_append]
  rfl

theorem bytes_repr_ne_nil (n : Nat) : bytes n.repr ≠ [] := by
  rw [bytes_repr, ne_eq, List.map_eq_nil_iff]
  exact Nat.toDigits_ne_nil

theorem not_special_of_isdigit {b : UInt8} (h : isdigit b = true) :
    isspace b = false ∧ b ≠ 45 ∧ b ≠ 43 := by
  simp only [isdigit, Bool.and_eq_true, decide_eq_true_eq, UInt8.le_iff_toNat_le] at h
  have hlow : 48 ≤ b.toNat := h.1
  refine ⟨?_, fun he => ?_, fun he => ?_⟩
  · have h32 : b ≠ 32 := fun he => absurd hlow (he ▸ by decide)
    have h13 : ¬ b ≤ 13 := by
      intro hle
      have hhigh : b.toNat ≤ 13 := UInt8.le_iff_toNat_le.mp hle
      omega
    simp [isspace, h32, h13]
  · exact absurd hlow (he ▸ by decide)
  · exact absurd hlow (he ▸ by decide)

theorem bytes_toString (i : Int) : bytes (toString i) =
    if 0 ≤ i then bytes i.toNat.repr else 45 :: bytes (-i).toNat.repr := by
  rw [Int.toString_eq_repr, Int.repr_eq_if]
  split_ifs
  · rfl
  · exact bytes_append _ _

theorem head_repr (n : Nat) :
    ∃ b bs, bytes n.repr = b :: bs ∧ isspace b = false ∧ b ≠ 45 ∧ b ≠ 43 := by
  obtain ⟨b, bs, hbs⟩ := List.exists_cons_of_ne_nil (bytes_repr_ne_nil n)
  have hb : isdigit b = true := isdigit_of_mem_repr (hbs ▸ List.mem_cons_self)
  exact ⟨b, bs, hbs, not_special_of_isdigit hb⟩

/-- `std::to_string` gives different numbers different texts. -/
theorem bytes_toString_injective : Function.Injective fun i : Int => bytes (toString i) := by
  have hsign (m n : Nat) : bytes m.repr ≠ 45 :: bytes n.repr := by
    obtain ⟨b, bs, hbs, -, hminus, -⟩ := head_repr m
    rw [hbs]
    intro h
    exact hminus (List.cons.inj h).1
  intro i j h
  simp only [bytes_toString] at h
  split_ifs at h
  · have hnat := congrArg decimal h
    rw [decimal_repr, decimal_repr] at hnat
    omega
  · exact absurd h (hsign _ _)
  · exact absurd h.symm (hsign _ _)
  · have hnat := congrArg decimal (List.cons.inj h).2
    rw [decimal_repr, decimal_repr] at hnat
    omega

/-- A non-empty string of digits. -/
def Numeral (v : Bytes) : Prop := v ≠ [] ∧ ∀ b ∈ v, isdigit b = true

instance (v : Bytes) : Decidable (Numeral v) :=
  decidable_of_iff (v ≠ [] ∧ v.all isdigit = true) (by simp [Numeral])

theorem numeral_repr (n : Nat) : Numeral (bytes n.repr) :=
  ⟨bytes_repr_ne_nil n, fun _ h => isdigit_of_mem_repr h⟩

theorem Numeral.stoi {v : Bytes} (h : Numeral v) : stoi v =
    if 2 ^ 31 - 1 < (decimal v : Int) then .error .outOfRange else .ok (decimal v) := by
  obtain ⟨hne, hdigits⟩ := h
  obtain ⟨b, bs, rfl⟩ := List.exists_cons_of_ne_nil hne
  obtain ⟨hspace, hminus, hplus⟩ := not_special_of_isdigit (hdigits b List.mem_cons_self)
  have hdrop : (b :: bs).dropWhile isspace = b :: bs := by
    rw [List.dropWhile_cons, hspace]
    rfl
  have hm : (b :: bs).head? ≠ some 45 := by simpa using hminus
  have hp : (b :: bs).head? ≠ some 43 := by simpa using hplus
  have hrange : (decimal (b :: bs) : Int) < -2 ^ 31 ∨ 2 ^ 31 - 1 < (decimal (b :: bs) : Int) ↔
      2 ^ 31 - 1 < (decimal (b :: bs) : Int) := by omega
  dsimp only [Http.stoi]
  rw [hdrop, if_neg (not_or.mpr ⟨hm, hp⟩), List.takeWhile_eq_self_iff.mpr hdigits, if_neg hne]
  simp only [if_neg hm, hrange]

/-- `std::stoi` undoes `std::to_string`, within the range of an `int`. -/
theorem stoi_toString (i : Int) : stoi (bytes (toString i)) =
    if i < -2 ^ 31 ∨ 2 ^ 31 - 1 < i then .error .outOfRange else .ok i := by
  by_cases hi : 0 ≤ i
  · have hrange : i < -2 ^ 31 ∨ 2 ^ 31 - 1 < i ↔ 2 ^ 31 - 1 < i := by omega
    rw [bytes_toString, if_pos hi, (numeral_repr _).stoi, decimal_repr, Int.toNat_of_nonneg hi]
    simp only [hrange]
  · rw [bytes_toString, if_neg hi]
    have hdrop : (45 :: bytes (-i).toNat.repr).dropWhile isspace = 45 :: bytes (-i).toNat.repr :=
      rfl
    have hsign : (45 :: bytes (-i).toNat.repr).head? = some 45 ∨
        (45 :: bytes (-i).toNat.repr).head? = some 43 := .inl rfl
    have hdigits : (bytes (-i).toNat.repr).takeWhile isdigit = bytes (-i).toNat.repr :=
      List.takeWhile_eq_self_iff.mpr fun _ h => isdigit_of_mem_repr h
    have hvalue : -(((-i).toNat : Nat) : Int) = i := by omega
    dsimp only [stoi]
    rw [hdrop, if_pos hsign, List.tail_cons, hdigits, if_neg (bytes_repr_ne_nil _)]
    simp only [List.head?_cons, if_true, decimal_repr, hvalue]

end Workplace.Http
