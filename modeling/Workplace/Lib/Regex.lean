import Mathlib.Data.List.Basic
import Mathlib.Tactic

/-! Regular expressions as a backtracking matcher takes them: the ways in which an expression
matches from a place in a text, the preferred one first. -/

namespace Workplace.Lib

inductive Regex (α : Type) where
  | empty
  | chars (p : α → Bool)
  | lineBegin
  | lineEnd
  | wordBound (word : α → Bool) (negated : Bool)
  | backref (i : Nat)
  | seq (r s : Regex α)
  | alt (r s : Regex α)
  | quant (min : Nat) (max : Option Nat) (greedy : Bool) (r : Regex α)
  | group (i : Nat) (r : Regex α)
  | look (negated : Bool) (r : Regex α)

variable {α : Type}

/-- A place in a text, with the last character before it and what the groups have captured. -/
structure Cursor (α : Type) where
  prev : Option α := none
  rest : List α
  captures : Nat → Option (List α) := fun _ => none

namespace Cursor

def skip (n : Nat) (x : Cursor α) : Cursor α :=
  { x with prev := (x.rest.take n).getLast?.or x.prev, rest := x.rest.drop n }

def capture (i : Nat) (text : List α) (x : Cursor α) : Cursor α :=
  { x with captures := Function.update x.captures i (some text) }

def forget (groups : List Nat) (x : Cursor α) : Cursor α :=
  { x with captures := fun i => if i ∈ groups then none else x.captures i }

end Cursor

namespace Regex

def groups : Regex α → List Nat
  | seq r s | alt r s => r.groups ++ s.groups
  | quant _ _ _ r | look _ r => r.groups
  | group i r => i :: r.groups
  | _ => []

/-- The highest number that a back reference has. -/
def lastBackref : Regex α → Nat
  | backref i => i
  | seq r s | alt r s => max r.lastBackref s.lastBackref
  | quant _ _ _ r | look _ r | group _ r => r.lastBackref
  | _ => 0

section Running

variable (step : Cursor α → List (Cursor α)) (groups : List Nat) (greedy : Bool)

/-- The rounds of a quantifier. A round beyond `min` has to take something. -/
def rounds : Nat → Nat → Option Nat → Cursor α → List (Cursor α)
  | 0, _, _, _ => []
  | fuel + 1, min, max, x =>
    if max = some 0 then [x]
    else
      let further := (step (x.forget groups)).flatMap fun y =>
        if min = 0 ∧ y.rest.length = x.rest.length then []
        else rounds fuel (min - 1) (max.map (· - 1)) y
      if min ≠ 0 then further else if greedy then further ++ [x] else x :: further

end Running

def run [DecidableEq α] : Regex α → Cursor α → List (Cursor α)
  | empty, x => [x]
  | chars p, x => if x.rest.head?.any p then [x.skip 1] else []
  | lineBegin, x => if x.prev = none then [x] else []
  | lineEnd, x => if x.rest = [] then [x] else []
  | wordBound word negated, x =>
    if (x.prev.any word != x.rest.head?.any word) != negated then [x] else []
  | backref i, x =>
    match x.captures i with
    | none => [x]
    | some text => if text <+: x.rest then [x.skip text.length] else []
  | seq r s, x => (r.run x).flatMap s.run
  | alt r s, x => r.run x ++ s.run x
  | quant min max greedy r, x =>
    rounds r.run r.groups greedy (min + x.rest.length + 1) min max x
  | group i r, x =>
    (r.run x).map fun y => y.capture i (x.rest.take (x.rest.length - y.rest.length))
  | look false r, x => ((r.run x).head?.map fun y => { x with captures := y.captures }).toList
  | look true r, x => if r.run x = [] then [x] else []

/-- The preferred match with a whole text. -/
def fullMatch [DecidableEq α] (r : Regex α) (text : List α) : Option (Cursor α) :=
  (r.run { rest := text }).find? (·.rest.isEmpty)

/-- Every match replaced, from the left, by an expression that matches no empty text. -/
def replaceFrom [DecidableEq α] (r : Regex α) (format : List α) : Nat → Option α → List α → List α
  | 0, _, text => text
  | _ + 1, _, [] => []
  | fuel + 1, prev, b :: text =>
    match (r.run { prev, rest := b :: text }).head? with
    | some y => format ++ replaceFrom r format fuel y.prev y.rest
    | none => b :: replaceFrom r format fuel (some b) text

def replace [DecidableEq α] (r : Regex α) (format text : List α) : List α :=
  replaceFrom r format text.length none text

def seqAll (rs : List (Regex α)) : Regex α := rs.foldr seq empty

/-- One character of `p` or more, as many as there are. -/
def plus (p : α → Bool) : Regex α := quant 1 none true (chars p)

end Regex

/-! ## Places -/

namespace Cursor

variable (x : Cursor α)

@[simp] theorem skip_rest (n : Nat) : (x.skip n).rest = x.rest.drop n := rfl

theorem skip_skip (m n : Nat) : (x.skip m).skip n = x.skip (m + n) := by
  simp only [skip, List.drop_drop, List.take_add, List.getLast?_append, Option.or_assoc]

theorem forget_nil : x.forget [] = x := by
  simp only [forget, List.not_mem_nil, if_false]

variable {x} {p : α → Bool}

theorem any_head_iff : x.rest.head?.any p = true ↔ 0 < (x.rest.takeWhile p).length := by
  cases x.rest with
  | nil => simp
  | cons b rest => cases h : p b <;> simp [h]

theorem takeWhile_skip (h : 0 < (x.rest.takeWhile p).length) :
    (x.rest.takeWhile p).length = ((x.skip 1).rest.takeWhile p).length + 1 ∧
      x.rest.length = (x.skip 1).rest.length + 1 := by
  rw [skip_rest]
  cases hrest : x.rest with
  | nil => simp [hrest] at h
  | cons b rest =>
    have hp : p b = true := by
      have hany := any_head_iff.mpr h
      rwa [hrest, List.head?_cons, Option.any_some] at hany
    simp [hp]

end Cursor

namespace Regex

variable [DecidableEq α] {p : α → Bool} {x y : Cursor α}

/-! ## Literal text, and a run of characters -/

theorem run_seqAll_cons (r : Regex α) (rs : List (Regex α)) :
    (seqAll (r :: rs)).run x = (r.run x).flatMap (seqAll rs).run := rfl

theorem run_seqAll_singleton (r : Regex α) : (seqAll [r]).run x = r.run x :=
  List.flatMap_singleton' _

theorem run_literal (text : List α) (rs : List (Regex α)) (x : Cursor α) :
    (seqAll (text.map (fun b => chars (· = b)) ++ rs)).run x =
      if text <+: x.rest then (seqAll rs).run (x.skip text.length) else [] := by
  induction text generalizing x with
  | nil => exact (if_pos List.nil_prefix).symm
  | cons b text ih =>
    rw [List.map_cons, List.cons_append, run_seqAll_cons, run]
    cases hrest : x.rest with
    | nil => simp
    | cons c rest =>
      have hskip : (x.skip 1).rest = rest := by rw [Cursor.skip_rest, hrest]; rfl
      rw [List.head?_cons, Option.any_some]
      by_cases hcb : c = b
      · rw [if_pos (decide_eq_true hcb), List.flatMap_singleton, ih, hskip, Cursor.skip_skip,
          Nat.add_comm]
        simp only [List.cons_prefix_cons, hcb, true_and, List.length_cons]
      · rw [if_neg (by simpa using hcb), List.flatMap_nil, if_neg]
        exact fun hstart => hcb (List.cons_prefix_cons.mp hstart).1.symm

theorem rounds_chars (fuel min : Nat) :
    rounds (chars p).run [] true (fuel + 1) min none x =
      (if 0 < (x.rest.takeWhile p).length then
        rounds (chars p).run [] true fuel (min - 1) none (x.skip 1) else []) ++
      if min = 0 then [x] else [] := by
  have hfurther : ((chars p).run x).flatMap (fun y =>
      if min = 0 ∧ y.rest.length = x.rest.length then []
      else rounds (chars p).run [] true fuel (min - 1) none y) =
      if 0 < (x.rest.takeWhile p).length then
        rounds (chars p).run [] true fuel (min - 1) none (x.skip 1) else [] := by
    simp only [run, Cursor.any_head_iff]
    split_ifs with h
    · have hshorter : ¬ (min = 0 ∧ (x.skip 1).rest.length = x.rest.length) := by
        have := (Cursor.takeWhile_skip h).2
        omega
      rw [List.flatMap_singleton, if_neg hshorter]
    · rfl
  rw [rounds, if_neg (Option.some_ne_none _).symm]
  dsimp only [Option.map_none]
  rw [Cursor.forget_nil, hfurther]
  by_cases hmin : min = 0
  · rw [if_neg (not_not.mpr hmin), if_pos rfl, if_pos hmin]
  · rw [if_pos hmin, if_neg hmin, List.append_nil]

theorem mem_rounds_chars {fuel min : Nat} (h : min + x.rest.length < fuel) :
    y ∈ rounds (chars p).run [] true fuel min none x ↔
      ∃ n, min ≤ n ∧ n ≤ (x.rest.takeWhile p).length ∧ y = x.skip n := by
  induction fuel generalizing min x with
  | zero => exact absurd h (Nat.not_lt_zero _)
  | succ fuel ih =>
    have hstop : y ∈ (if min = 0 then [x] else []) ↔ min = 0 ∧ y = x := by
      split_ifs with hzero
      · exact List.mem_singleton.trans (and_iff_right hzero).symm
      · exact iff_of_false List.not_mem_nil fun h => hzero h.1
    rw [rounds_chars, List.mem_append, hstop]
    by_cases hspan : 0 < (x.rest.takeWhile p).length
    · obtain ⟨hrun, hlength⟩ := Cursor.takeWhile_skip hspan
      rw [if_pos hspan, ih (by omega)]
      simp only [Cursor.skip_skip]
      constructor
      · rintro (⟨n, hmin, hn, rfl⟩ | ⟨rfl, rfl⟩)
        · exact ⟨1 + n, by omega, by omega, rfl⟩
        · exact ⟨0, le_refl _, Nat.zero_le _, rfl⟩
      · rintro ⟨n, hmin, hn, rfl⟩
        cases n with
        | zero => exact .inr ⟨Nat.le_zero.mp hmin, rfl⟩
        | succ n => exact .inl ⟨n, by omega, by omega, by rw [Nat.add_comm]⟩
    · rw [if_neg hspan]
      constructor
      · rintro (hy | ⟨rfl, rfl⟩)
        · exact absurd hy List.not_mem_nil
        · exact ⟨0, le_refl _, Nat.zero_le _, rfl⟩
      · rintro ⟨n, hmin, hn, rfl⟩
        obtain rfl : n = 0 := by omega
        exact .inr ⟨Nat.le_zero.mp hmin, rfl⟩

theorem mem_run_plus : y ∈ (plus p).run x ↔
    ∃ n, 0 < n ∧ n ≤ (x.rest.takeWhile p).length ∧ y = x.skip n :=
  mem_rounds_chars (by omega)

/-- The longest run is tried first. -/
theorem head?_rounds_chars {fuel min : Nat} (h : min + x.rest.length < fuel) :
    (rounds (chars p).run [] true fuel min none x).head? =
      if min ≤ (x.rest.takeWhile p).length then some (x.skip (x.rest.takeWhile p).length)
      else none := by
  induction fuel generalizing min x with
  | zero => exact absurd h (Nat.not_lt_zero _)
  | succ fuel ih =>
    rw [rounds_chars, List.head?_append]
    by_cases hspan : 0 < (x.rest.takeWhile p).length
    · obtain ⟨hrun, hlength⟩ := Cursor.takeWhile_skip hspan
      rw [if_pos hspan, ih (by omega), Cursor.skip_skip, hrun, Nat.add_comm 1]
      by_cases hmin : min ≤ ((x.skip 1).rest.takeWhile p).length + 1
      · rw [if_pos hmin, if_pos (by omega), Option.some_or]
      · rw [if_neg hmin, if_neg (by omega), if_neg (by omega)]
        rfl
    · rw [if_neg hspan]
      have hzero : (x.rest.takeWhile p).length = 0 := by omega
      rw [hzero, List.head?_nil, Option.none_or]
      by_cases hmin : min = 0
      · rw [if_pos hmin, if_pos (Nat.le_zero.mpr hmin)]
        rfl
      · rw [if_neg hmin, if_neg fun hle => hmin (Nat.le_zero.mp hle)]
        rfl

theorem head?_run_plus : ((plus p).run x).head? =
    if 0 < (x.rest.takeWhile p).length then some (x.skip (x.rest.takeWhile p).length)
    else none :=
  head?_rounds_chars (by omega)

theorem mem_run_group_plus {i : Nat} : y ∈ (group i (seqAll [plus p])).run x ↔
    ∃ n, 0 < n ∧ n ≤ (x.rest.takeWhile p).length ∧
      y = (x.skip n).capture i (x.rest.take n) := by
  have hcapture {n : Nat} (hn : n ≤ (x.rest.takeWhile p).length) :
      x.rest.length - (x.skip n).rest.length = n := by
    have := (List.takeWhile_sublist p (l := x.rest)).length_le
    rw [Cursor.skip_rest, List.length_drop]
    omega
  rw [run, List.mem_map, run_seqAll_singleton]
  simp only [mem_run_plus]
  constructor
  · rintro ⟨_, ⟨n, hpos, hn, rfl⟩, rfl⟩
    exact ⟨n, hpos, hn, by rw [hcapture hn]⟩
  · rintro ⟨n, hpos, hn, rfl⟩
    exact ⟨_, ⟨n, hpos, hn, rfl⟩, by rw [hcapture hn]⟩

theorem mem_run_append {rs ts : List (Regex α)} : y ∈ (seqAll (rs ++ ts)).run x ↔
    ∃ z ∈ (seqAll rs).run x, y ∈ (seqAll ts).run z := by
  induction rs generalizing x with
  | nil =>
    constructor
    · exact fun hy => ⟨x, List.mem_singleton_self x, hy⟩
    · rintro ⟨z, hz, hy⟩
      rwa [List.mem_singleton.mp hz] at hy
  | cons r rs ih =>
    rw [List.cons_append, run_seqAll_cons, run_seqAll_cons, List.mem_flatMap]
    simp only [ih, List.mem_flatMap]
    constructor
    · rintro ⟨w, hw, z, hz, hy⟩
      exact ⟨z, ⟨w, hw, hz⟩, hy⟩
    · rintro ⟨z, ⟨w, hw, hz⟩, hy⟩
      exact ⟨w, hw, z, hz, hy⟩

theorem isSome_fullMatch {r : Regex α} {text : List α} :
    (r.fullMatch text).isSome ↔ ∃ y ∈ r.run { rest := text }, y.rest = [] := by
  rw [fullMatch, List.find?_isSome]
  simp only [List.isEmpty_iff]

/-! ## What is left of a text -/

omit [DecidableEq α] in
theorem rounds_suffix {step : Cursor α → List (Cursor α)}
    (hstep : ∀ x, ∀ y ∈ step x, y.rest <:+ x.rest) {groups : List Nat} {greedy : Bool}
    {fuel min : Nat} {max : Option Nat} (h : y ∈ rounds step groups greedy fuel min max x) :
    y.rest <:+ x.rest := by
  induction fuel generalizing min max x y with
  | zero => exact absurd h List.not_mem_nil
  | succ fuel ih =>
    have hfurther {z : Cursor α} (hz : z ∈ (step (x.forget groups)).flatMap fun y =>
        if min = 0 ∧ y.rest.length = x.rest.length then []
        else rounds step groups greedy fuel (min - 1) (max.map (· - 1)) y) :
        z.rest <:+ x.rest := by
      obtain ⟨w, hw, hz⟩ := List.mem_flatMap.mp hz
      split_ifs at hz
      · exact absurd hz List.not_mem_nil
      · exact (ih hz).trans (hstep (x.forget groups) w hw)
    rw [rounds] at h
    dsimp only at h
    split_ifs at h
    · rw [List.mem_singleton.mp h]
    · exact hfurther h
    · rcases List.mem_append.mp h with h | h
      · exact hfurther h
      · rw [List.mem_singleton.mp h]
    · rcases List.mem_cons.mp h with rfl | h
      · exact List.suffix_rfl
      · exact hfurther h

theorem rest_suffix_of_mem_run {r : Regex α} (h : y ∈ r.run x) : y.rest <:+ x.rest := by
  induction r generalizing x y with
  | empty => rw [List.mem_singleton.mp h]
  | chars p =>
    rw [run] at h
    split_ifs at h
    · rw [List.mem_singleton.mp h]
      exact List.drop_suffix _ _
    · exact absurd h List.not_mem_nil
  | lineBegin | lineEnd | wordBound =>
    rw [run] at h
    split_ifs at h
    · rw [List.mem_singleton.mp h]
    · exact absurd h List.not_mem_nil
  | backref i =>
    rw [run] at h
    split at h
    · rw [List.mem_singleton.mp h]
    · split_ifs at h
      · rw [List.mem_singleton.mp h]
        exact List.drop_suffix _ _
      · exact absurd h List.not_mem_nil
  | seq r s ihr ihs =>
    obtain ⟨z, hz, hy⟩ := List.mem_flatMap.mp h
    exact (ihs hy).trans (ihr hz)
  | alt r s ihr ihs =>
    rcases List.mem_append.mp h with h | h
    · exact ihr h
    · exact ihs h
  | quant min max greedy r ih => exact rounds_suffix (fun x y hy => ih hy) h
  | group i r ih =>
    obtain ⟨z, hz, rfl⟩ := List.mem_map.mp h
    have hrest : z.rest <:+ x.rest := ih hz
    exact hrest
  | look negated r ih =>
    cases negated with
    | true =>
      rw [run] at h
      split_ifs at h
      · rw [List.mem_singleton.mp h]
      · exact absurd h List.not_mem_nil
    | false =>
      obtain ⟨z, -, rfl⟩ := Option.map_eq_some_iff.mp (Option.mem_toList.mp h)
      exact List.suffix_rfl

/-! ## Characters that an expression does not tell apart -/

/-- Nothing in the expression tells `b` and `π b` apart. -/
def Invariant (π : α → α) : Regex α → Prop
  | chars p | wordBound p _ => ∀ b, p (π b) = p b
  | backref _ => Function.Injective π
  | seq r s | alt r s => r.Invariant π ∧ s.Invariant π
  | quant _ _ _ r | group _ r | look _ r => r.Invariant π
  | _ => True

end Regex

namespace Cursor

def map (π : α → α) (x : Cursor α) : Cursor α where
  prev := x.prev.map π
  rest := x.rest.map π
  captures i := (x.captures i).map (List.map π)

variable (π : α → α) (x : Cursor α)

theorem map_skip (n : Nat) : (x.skip n).map π = (x.map π).skip n := by
  simp only [map, skip, List.map_drop, Option.map_or, List.getLast?_map,
    ← List.map_take]

theorem map_capture (i : Nat) (text : List α) :
    (x.capture i text).map π = (x.map π).capture i (text.map π) := by
  simp only [map, capture, mk.injEq, true_and]
  funext j
  by_cases hj : j = i
  · rw [hj, Function.update_self, Function.update_self]
    rfl
  · rw [Function.update_of_ne hj, Function.update_of_ne hj]

theorem map_forget (groups : List Nat) : (x.forget groups).map π = (x.map π).forget groups := by
  simp only [map, forget, mk.injEq, true_and]
  funext j
  split_ifs <;> rfl

end Cursor

namespace Regex

variable {π : α → α}

theorem rounds_map {step : Cursor α → List (Cursor α)}
    (hstep : ∀ x, step (x.map π) = (step x).map (Cursor.map π)) (groups : List Nat)
    (greedy : Bool) (fuel min : Nat) (max : Option Nat) (x : Cursor α) :
    rounds step groups greedy fuel min max (x.map π) =
      (rounds step groups greedy fuel min max x).map (Cursor.map π) := by
  induction fuel generalizing min max x with
  | zero => rfl
  | succ fuel ih =>
    have hlength (y : Cursor α) : (y.map π).rest.length = y.rest.length := List.length_map _
    have hfurther : (step ((x.map π).forget groups)).flatMap (fun y =>
        if min = 0 ∧ y.rest.length = (x.map π).rest.length then []
        else rounds step groups greedy fuel (min - 1) (max.map (· - 1)) y) =
        ((step (x.forget groups)).flatMap fun y =>
          if min = 0 ∧ y.rest.length = x.rest.length then []
          else rounds step groups greedy fuel (min - 1) (max.map (· - 1)) y).map (Cursor.map π) := by
      rw [← Cursor.map_forget, hstep, List.flatMap_map, List.map_flatMap]
      congr 1
      funext y
      rw [hlength, hlength, ih]
      split_ifs <;> rfl
    rw [rounds, rounds]
    dsimp only
    rw [hfurther]
    split_ifs
    · rfl
    · rfl
    · rw [List.map_append]
      rfl
    · rfl

variable [DecidableEq α]

/-- Characters that are not told apart are matched alike. -/
theorem run_map {r : Regex α} (h : r.Invariant π) (x : Cursor α) :
    r.run (x.map π) = (r.run x).map (Cursor.map π) := by
  induction r generalizing x with
  | empty => rfl
  | chars p =>
    have hany : (x.map π).rest.head?.any p = x.rest.head?.any p := by
      cases hrest : x.rest with
      | nil => simp [Cursor.map, hrest]
      | cons b rest => simpa [Cursor.map, hrest] using congrArg (· = true) (h b)
    rw [run, run, hany]
    split_ifs
    · rw [← Cursor.map_skip]
      rfl
    · rfl
  | lineBegin =>
    have hprev : (x.map π).prev = none ↔ x.prev = none := Option.map_eq_none_iff
    simp only [run, hprev]
    split_ifs <;> rfl
  | lineEnd =>
    have hrest : (x.map π).rest = [] ↔ x.rest = [] := List.map_eq_nil_iff
    simp only [run, hrest]
    split_ifs <;> rfl
  | wordBound word negated =>
    have hany (o : Option α) : (o.map π).any word = o.any word := by
      cases o with
      | none => rfl
      | some b => exact h b
    have hhead : (x.map π).rest.head? = x.rest.head?.map π := List.head?_map
    rw [run, run, show (x.map π).prev = x.prev.map π from rfl, hhead, hany, hany]
    split_ifs <;> rfl
  | backref i =>
    rw [run, run, show (x.map π).captures i = (x.captures i).map (List.map π) from rfl]
    cases x.captures i with
    | none => rfl
    | some text =>
      have hstart : text.map π <+: (x.map π).rest ↔ text <+: x.rest := by
        rw [List.prefix_iff_eq_take, List.prefix_iff_eq_take, List.length_map,
          show (x.map π).rest = x.rest.map π from rfl, ← List.map_take]
        exact (List.map_injective_iff.mpr h).eq_iff
      dsimp only [Option.map_some]
      rw [List.length_map, ← Cursor.map_skip]
      simp only [hstart]
      split_ifs <;> rfl
  | seq r s ihr ihs =>
    rw [run, run, ihr h.1, List.flatMap_map, List.map_flatMap]
    exact List.flatMap_congr fun y _ => ihs h.2 y
  | alt r s ihr ihs => rw [run, run, ihr h.1, ihs h.2, List.map_append]
  | quant min max greedy r ih =>
    rw [run, run, show (x.map π).rest.length = x.rest.length from List.length_map _]
    exact rounds_map (ih h) _ _ _ _ _ _
  | group i r ih =>
    rw [run, run, ih h, List.map_map, List.map_map]
    refine List.map_congr_left fun y _ => ?_
    rw [Function.comp_apply, Function.comp_apply, Cursor.map_capture, List.map_take]
    simp only [Cursor.map, List.length_map]
  | look negated r ih =>
    cases negated with
    | true =>
      simp only [run, ih h, List.map_eq_nil_iff]
      split_ifs <;> rfl
    | false =>
      rw [run, run, ih h, List.head?_map]
      cases (r.run x).head? <;> rfl

theorem fullMatch_map {r : Regex α} (h : r.Invariant π) (text : List α) :
    r.fullMatch (text.map π) = (r.fullMatch text).map (Cursor.map π) := by
  have hstart : ({ rest := text.map π } : Cursor α) = Cursor.map π { rest := text } := rfl
  rw [fullMatch, fullMatch, hstart, run_map h, List.find?_map]
  congr 2
  funext y
  exact List.isEmpty_map

end Regex
end Workplace.Lib
