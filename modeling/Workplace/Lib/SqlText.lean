import Mathlib.Data.List.Basic
import Mathlib.Tactic

/-! The string literals of a statement, as MySQL reads them: a literal ends at its quote, unless
the quote is doubled or behind a backslash. A text that is put between quotes is read as itself
exactly when nothing in it is an escape. -/

namespace Workplace.Lib.SqlText

abbrev Text := List UInt8

abbrev backslash : UInt8 := 92
abbrev percent : UInt8 := 37
abbrev underscore : UInt8 := 95

inductive Token where
  | byte (b : UInt8)
  | literal (value : Text)
  deriving DecidableEq

/-- What a backslash and the byte behind it stand for. In front of a wildcard the backslash is
kept, for the pattern matching. -/
def escape (b : UInt8) : Text :=
  if b = 48 then [0]
  else if b = 98 then [8]
  else if b = 110 then [10]
  else if b = 114 then [13]
  else if b = 116 then [9]
  else if b = 90 then [26]
  else if b = percent ∨ b = underscore then [backslash, b]
  else [b]

/-- Behind the quote `q` that opens a literal: its value, and what comes behind it. -/
def readLiteral (q : UInt8) : Text → Option (Text × Text)
  | [] => none
  | [b] => if b = q then some ([], []) else none
  | b :: c :: rest =>
    if b = backslash then (readLiteral q rest).map fun p => (escape c ++ p.1, p.2)
    else if b = q then
      if c = q then (readLiteral q rest).map fun p => (q :: p.1, p.2) else some ([], c :: rest)
    else (readLiteral q (c :: rest)).map fun p => (b :: p.1, p.2)

def IsQuote (b : UInt8) : Prop := b = 39 ∨ b = 34

instance (b : UInt8) : Decidable (IsQuote b) := inferInstanceAs (Decidable (_ ∨ _))

/-- Every backslash is in front of a wildcard, and there is no quote. -/
def Verbatim (q : UInt8) (v : Text) : Prop :=
  q ∉ v ∧ ∀ before after, v = before ++ backslash :: after →
    after.head? = some percent ∨ after.head? = some underscore

variable {q b c : UInt8} {bs v rest : Text}

/-! ## Reading one literal -/

theorem escape_wildcard (h : c = percent ∨ c = underscore) : escape c = [backslash, c] := by
  rcases h with rfl | rfl <;> rfl

theorem length_escape (h : ¬ (c = percent ∨ c = underscore)) : (escape c).length = 1 := by
  unfold escape
  split_ifs <;> rfl

theorem IsQuote.ne_backslash (h : IsQuote q) : q ≠ backslash := by
  rintro rfl
  revert h
  decide

theorem IsQuote.ne_wildcard (h : IsQuote q) : ¬ (q = percent ∨ q = underscore) := by
  rintro (rfl | rfl) <;> revert h <;> decide

theorem verbatim_nil : Verbatim q [] := ⟨List.not_mem_nil, fun _ _ h => by simp at h⟩

theorem verbatim_cons : Verbatim q (b :: v) ↔
    b ≠ q ∧ (b = backslash → v.head? = some percent ∨ v.head? = some underscore) ∧
      Verbatim q v := by
  constructor
  · rintro ⟨hquote, hescape⟩
    obtain ⟨hb, hv⟩ := not_or.mp (mt List.mem_cons.mpr hquote)
    refine ⟨Ne.symm hb, fun heq => hescape [] v (by rw [heq]; rfl), hv, fun before after h => ?_⟩
    exact hescape (b :: before) after (by rw [h]; rfl)
  · rintro ⟨hb, hhead, hquote, hescape⟩
    refine ⟨List.not_mem_cons_of_ne_of_not_mem (Ne.symm hb) hquote, fun before after h => ?_⟩
    cases before with
    | nil =>
      obtain ⟨rfl, rfl⟩ := List.cons.inj h
      exact hhead rfl
    | cons b' before => exact hescape before after (List.cons.inj h).2

theorem readLiteral_cons (hb : b ≠ backslash) (hq : b ≠ q) (bs : Text) :
    readLiteral q (b :: bs) = (readLiteral q bs).map fun p => (b :: p.1, p.2) := by
  cases bs with
  | nil => simp [readLiteral, hq]
  | cons c rest => rw [readLiteral, if_neg hb, if_neg hq]

theorem readLiteral_quote (hq : IsQuote q) (hrest : rest.head? ≠ some q) :
    readLiteral q (q :: rest) = some ([], rest) := by
  cases rest with
  | nil => rw [readLiteral, if_pos rfl]
  | cons c rest =>
    have hc : c ≠ q := fun h => hrest (by rw [h]; rfl)
    rw [readLiteral, if_neg hq.ne_backslash, if_pos rfl, if_neg hc]

theorem readLiteral_verbatim (hq : IsQuote q) (hv : Verbatim q v) (hrest : rest.head? ≠ some q) :
    readLiteral q (v ++ q :: rest) = some (v, rest) := by
  induction v using List.twoStepInduction with
  | nil => exact readLiteral_quote hq hrest
  | singleton b =>
    obtain ⟨hb, hhead, -⟩ := verbatim_cons.mp hv
    have hne : b ≠ backslash := fun h => by simpa using hhead h
    rw [List.singleton_append, readLiteral_cons hne hb, readLiteral_quote hq hrest]
    rfl
  | cons_cons b c v ih ih' =>
    obtain ⟨hb, hhead, hcv⟩ := verbatim_cons.mp hv
    by_cases hbackslash : b = backslash
    · have hc : c = percent ∨ c = underscore := by simpa using hhead hbackslash
      rw [List.cons_append, List.cons_append, readLiteral, if_pos hbackslash,
        ih (verbatim_cons.mp hcv).2.2, Option.map_some, escape_wildcard hc, hbackslash]
      rfl
    · rw [List.cons_append, readLiteral_cons hbackslash hb, ih' c hcv]
      rfl

theorem map_value_eq_some {f : Text → Text} {o : Option (Text × Text)}
    (h : o.map (fun p => (f p.1, p.2)) = some (v, rest)) :
    ∃ w, o = some (w, rest) ∧ f w = v := by
  obtain ⟨⟨w, rest'⟩, ho, heq⟩ := Option.map_eq_some_iff.mp h
  obtain ⟨hv, rfl⟩ := Prod.mk.inj heq
  exact ⟨w, ho, hv⟩

/-- A literal is longer than its value and the quotes, but for a text without escapes. -/
theorem readLiteral_length (hq : IsQuote q) (h : readLiteral q bs = some (v, rest)) :
    v.length + rest.length + 1 < bs.length ∨
      bs = v ++ q :: rest ∧ Verbatim q v ∧ rest.head? ≠ some q := by
  fun_induction readLiteral q bs generalizing v with
  | case1 => cases h
  | case2 =>
    obtain ⟨rfl, rfl⟩ := Prod.mk.inj (Option.some.inj h)
    exact .inr ⟨rfl, verbatim_nil, by simp⟩
  | case3 => cases h
  | case4 c bs ih =>
    obtain ⟨w, hread, rfl⟩ := map_value_eq_some h
    by_cases hc : c = percent ∨ c = underscore
    · rw [escape_wildcard hc]
      rcases ih hread with hlt | ⟨rfl, hw, hrest⟩
      · left
        simp only [List.length_append, List.length_cons, List.length_nil]
        omega
      · have hcq : c ≠ q := fun h => hq.ne_wildcard (h ▸ hc)
        have hcb : c ≠ backslash := by
          rintro rfl
          revert hc
          decide
        have hcw : Verbatim q (c :: w) := verbatim_cons.mpr ⟨hcq, fun h => absurd h hcb, hw⟩
        exact .inr ⟨rfl, verbatim_cons.mpr ⟨hq.ne_backslash.symm, fun _ => by simpa using hc, hcw⟩,
          hrest⟩
    · have hlen := length_escape hc
      left
      rcases ih hread with hlt | ⟨rfl, -, -⟩ <;>
        simp only [List.length_append, List.length_cons, hlen] <;> omega
  | case5 bs hb ih =>
    obtain ⟨w, hread, rfl⟩ := map_value_eq_some h
    left
    rcases ih hread with hlt | ⟨rfl, -, -⟩ <;>
      simp only [List.length_append, List.length_cons] <;> omega
  | case6 c bs hc hb =>
    obtain ⟨rfl, rfl⟩ := Prod.mk.inj (Option.some.inj h)
    exact .inr ⟨rfl, verbatim_nil, by simpa using hc⟩
  | case7 b c bs hb hbq ih =>
    obtain ⟨w, hread, rfl⟩ := map_value_eq_some h
    rcases ih hread with hlt | ⟨hbs, hw, hrest⟩
    · left
      simp only [List.length_cons] at hlt ⊢
      omega
    · refine .inr ⟨by rw [hbs]; rfl, verbatim_cons.mpr ⟨hbq, fun h => absurd h hb, hw⟩, hrest⟩

theorem readLiteral_shorter (hq : IsQuote q) (h : readLiteral q bs = some (v, rest)) :
    rest.length < bs.length := by
  rcases readLiteral_length hq h with hlt | ⟨rfl, -, -⟩
  · omega
  · rw [List.length_append, List.length_cons]
    omega

/-! ## Reading a statement -/

/-- The literals of a statement and the bytes between them; none if a literal is left open. -/
def lex : Text → Option (List Token)
  | [] => some []
  | b :: bs =>
    if _hq : IsQuote b then
      match _hread : readLiteral b bs with
      | none => none
      | some (value, rest) => (lex rest).map (.literal value :: ·)
    else (lex bs).map (.byte b :: ·)
termination_by bs => bs.length
decreasing_by
  · have := readLiteral_shorter _hq _hread
    simp only [List.length_cons]
    omega
  · simp only [List.length_cons]
    omega

theorem lex_byte (hb : ¬ IsQuote b) (bs : Text) :
    lex (b :: bs) = (lex bs).map (.byte b :: ·) := by
  rw [lex, dif_neg hb]

theorem lex_literal (hq : IsQuote q) (bs : Text) : lex (q :: bs) =
    (readLiteral q bs).bind fun p => (lex p.2).map (.literal p.1 :: ·) := by
  rw [lex, dif_pos hq]
  split
  · rename_i hread
    rw [hread]
    rfl
  · rename_i hread
    rw [hread]
    rfl

/-- A text between the literals. -/
def Plain (t : Text) : Prop := ∀ b ∈ t, ¬ IsQuote b

theorem plain_iff {t : Text} : Plain t ↔ 39 ∉ t ∧ 34 ∉ t := by
  simp only [Plain, IsQuote, not_or, imp_and, forall_and]
  exact and_congr List.forall_mem_ne' List.forall_mem_ne'

theorem lex_plain {t : Text} (ht : Plain t) (bs : Text) :
    lex (t ++ bs) = (lex bs).map (t.map .byte ++ ·) := by
  induction t with
  | nil => simp
  | cons b t ih =>
    obtain ⟨hb, ht⟩ := List.forall_mem_cons.mp ht
    rw [List.cons_append, lex_byte hb, ih ht, Option.map_map]
    rfl

/-- The fewest bytes that a token is read from. -/
def Token.weight : Token → Nat
  | .byte _ => 1
  | .literal value => value.length + 2

def weight (tokens : List Token) : Nat := (tokens.map Token.weight).sum

theorem weight_cons (t : Token) (tokens : List Token) :
    weight (t :: tokens) = t.weight + weight tokens := rfl

theorem lex_weight {tokens : List Token} (h : lex bs = some tokens) :
    weight tokens ≤ bs.length := by
  fun_induction lex bs generalizing tokens with
  | case1 =>
    rw [← Option.some.inj h]
    exact le_rfl
  | case2 => cases h
  | case3 b bs hq value rest hread ih =>
    obtain ⟨tokens, hlex, rfl⟩ := Option.map_eq_some_iff.mp h
    have hrest := ih hlex
    rw [weight_cons, Token.weight, List.length_cons]
    rcases readLiteral_length hq hread with hlt | ⟨rfl, -, -⟩
    · omega
    · rw [List.length_append, List.length_cons]
      omega
  | case4 b bs hq ih =>
    obtain ⟨tokens, hlex, rfl⟩ := Option.map_eq_some_iff.mp h
    have hrest := ih hlex
    rw [weight_cons, Token.weight, List.length_cons]
    omega

theorem weight_append (tokens tokens' : List Token) :
    weight (tokens ++ tokens') = weight tokens + weight tokens' := by
  simp [weight]

theorem weight_bytes (t : Text) : weight (t.map .byte) = t.length := by
  induction t with
  | nil => rfl
  | cons b t ih =>
    rw [List.map_cons, weight_cons, ih, Token.weight, List.length_cons]
    omega

/-! ## Statements put together from values and texts -/

/-- A value between quotes, and the text up to the next one. -/
structure Slot where
  value : Text
  after : Text

def fill (q : UInt8) (slots : List Slot) : Text :=
  slots.flatMap fun s => q :: (s.value ++ q :: s.after)

def tokensOf (slots : List Slot) : List Token :=
  slots.flatMap fun s => .literal s.value :: s.after.map .byte

theorem fill_cons (q : UInt8) (s : Slot) (slots : List Slot) :
    fill q (s :: slots) = q :: (s.value ++ q :: (s.after ++ fill q slots)) := by
  simp [fill]

theorem tokensOf_cons (s : Slot) (slots : List Slot) :
    tokensOf (s :: slots) = .literal s.value :: (s.after.map .byte ++ tokensOf slots) := rfl

theorem weight_tokensOf (q : UInt8) (slots : List Slot) :
    weight (tokensOf slots) = (fill q slots).length := by
  induction slots with
  | nil => rfl
  | cons s slots ih =>
    rw [tokensOf_cons, weight_cons, weight_append, weight_bytes, ih, Token.weight, fill_cons]
    simp only [List.length_cons, List.length_append]
    omega

theorem lex_plain_eq_some {t : Text} (ht : Plain t) {tokens : List Token} :
    lex (t ++ bs) = some (t.map .byte ++ tokens) ↔ lex bs = some tokens := by
  rw [lex_plain ht, Option.map_eq_some_iff]
  constructor
  · rintro ⟨tokens', hlex, heq⟩
    rw [hlex, List.append_cancel_left heq]
  · exact fun h => ⟨tokens, h, rfl⟩

theorem lex_slot_iff (hq : IsQuote q) {tokens : List Token} (hrest : rest.head? ≠ some q)
    (hweight : weight tokens = rest.length) :
    lex (q :: (v ++ q :: rest)) = some (.literal v :: tokens) ↔
      Verbatim q v ∧ lex rest = some tokens := by
  rw [lex_literal hq]
  constructor
  · intro h
    obtain ⟨⟨w, rest'⟩, hread, htokens⟩ := Option.bind_eq_some_iff.mp h
    obtain ⟨tokens', hlex, heq⟩ := Option.map_eq_some_iff.mp htokens
    obtain ⟨hw, rfl⟩ := List.cons.inj heq
    obtain rfl := Token.literal.inj hw
    have hle : weight tokens' ≤ rest'.length := lex_weight hlex
    rcases readLiteral_length hq hread with hlt | ⟨heq, hverbatim, -⟩
    · -- a value shorter than what was put in leaves too little for the other tokens
      simp only [List.length_append, List.length_cons] at hlt
      omega
    · obtain rfl := (List.cons.inj (List.append_cancel_left heq)).2
      exact ⟨hverbatim, hlex⟩
  · rintro ⟨hv, hlex⟩
    rw [readLiteral_verbatim hq hv hrest, Option.bind_some, hlex]
    rfl

/-- **Values stay values.** A statement is read as its texts with the values in their places
exactly when nothing in a value is an escape or its end. -/
theorem lex_statement_iff (hq : IsQuote q) {front : Text} {slots : List Slot}
    (hfront : Plain front) (hafter : ∀ s ∈ slots, Plain s.after)
    (hapart : ∀ s ∈ slots.dropLast, s.after ≠ []) :
    lex (front ++ fill q slots) = some (front.map .byte ++ tokensOf slots) ↔
      ∀ s ∈ slots, Verbatim q s.value := by
  rw [lex_plain_eq_some hfront]
  clear hfront
  induction slots with
  | nil => exact iff_of_true (by rw [fill, List.flatMap_nil, lex]; rfl) (by simp)
  | cons s slots ih =>
    obtain ⟨hs, hslots⟩ := List.forall_mem_cons.mp hafter
    have hhead : (s.after ++ fill q slots).head? ≠ some q := by
      cases ha : s.after with
      | nil =>
        cases slots with
        | nil => simp [fill]
        | cons s' slots => exact absurd ha (hapart s List.mem_cons_self)
      | cons b after =>
        rintro ⟨⟩
        exact hs q (ha ▸ List.mem_cons_self) hq
    have hapart' : ∀ s ∈ slots.dropLast, s.after ≠ [] := by
      intro s' hs'
      cases slots with
      | nil => cases hs'
      | cons s₁ slots => exact hapart s' (List.mem_cons_of_mem s hs')
    have hweight : weight (s.after.map .byte ++ tokensOf slots) =
        (s.after ++ fill q slots).length := by
      rw [weight_append, weight_bytes, weight_tokensOf q, List.length_append]
    rw [fill_cons, tokensOf_cons, lex_slot_iff hq hhead hweight, lex_plain_eq_some hs,
      ih hslots hapart', List.forall_mem_cons]

end Workplace.Lib.SqlText
