import Workplace.Http.RegexText
import Workplace.Http.Routes

/-! The dynamic routes. A pattern of segments becomes a regular expression by a replacement in
its text, so what is written in a literal segment is read as a regular expression too. -/

namespace Workplace.Http
open Workplace.Lib
open RegexText

namespace Router

def convertToRegex (path : Bytes) : Option Pattern := do
  let param ← compile (bytes "/:([^/]+)")
  let regexPattern := bytes "^" ++ param.1.replace (bytes "/([^/]+)") path
  let regex ← compile regexPattern
  return regexMatch regex

end Router

/-! ## Patterns of segments -/

inductive Segment where
  | literal (text : Bytes) (noSlash : 47 ∉ text) (noColon : text.head? ≠ some 58)
  | param (name : Bytes) (named : name ≠ []) (noSlash : 47 ∉ name)

namespace Segment

def text : Segment → Bytes
  | literal text _ _ => text
  | param name _ _ => 58 :: name

/-- What the segment takes from a path, if it takes this piece of it. -/
def take : Segment → Bytes → Option (List Bytes)
  | literal text _ _, piece => if piece = text then some [] else none
  | param _ _ _, piece => if piece = [] then none else some [piece]

end Segment

/-- The segments take the pieces one by one. -/
def takeAll : List Segment → List Bytes → Option (List Bytes)
  | [], [] => some []
  | segment :: segments, piece :: pieces =>
    (segment.take piece).bind fun params => (takeAll segments pieces).map (params ++ ·)
  | _, _ => none

structure RoutePattern where
  first : Segment
  others : List Segment

/-- The pieces, with a slash in front of each. -/
def slashed (pieces : List Bytes) : Bytes := pieces.flatMap (47 :: ·)

namespace RoutePattern

def path (p : RoutePattern) : Bytes := p.first.text ++ slashed (p.others.map Segment.text)

/-- The parameters of a path that the pattern matches segment by segment. -/
def params (p : RoutePattern) (path : Bytes) : Option (List Bytes) :=
  takeAll (p.first :: p.others) (path.splitOn 47)

end RoutePattern

/-! ## The replacement -/

theorem slashed_cons (piece : Bytes) (pieces : List Bytes) :
    slashed (piece :: pieces) = 47 :: (piece ++ slashed pieces) := rfl

namespace Segment

theorem text_noSlash (s : Segment) : 47 ∉ s.text := by
  cases s with
  | literal text noSlash => exact noSlash
  | param name _ noSlash => exact List.not_mem_cons_of_ne_of_not_mem (by decide) noSlash

/-- The segment in the text of the regular expression. -/
def regexText : Segment → Bytes
  | literal text _ _ => text
  | param _ _ _ => bytes "([^/]+)"

end Segment

def paramRegex : Regex UInt8 := .seqAll ((bytes "/:").map literal ++ [segmentGroup 1])

theorem compile_param : compile (bytes "/:([^/]+)") = some (paramRegex, 1) := rfl

theorem notSlash_of_mem {piece : Bytes} (h : 47 ∉ piece) : ∀ b ∈ piece, notSlash b = true := by
  intro b hb
  have hne : b ≠ 47 := fun heq => h (heq ▸ hb)
  simp [notSlash, hne]

theorem takeWhile_notSlash {piece : Bytes} (h : 47 ∉ piece) (pieces : List Bytes) :
    (piece ++ slashed pieces).takeWhile notSlash = piece := by
  rw [List.takeWhile_append_of_pos (notSlash_of_mem h)]
  cases pieces with
  | nil => exact List.append_nil _
  | cons piece' pieces => exact List.append_nil _

theorem head?_run_segmentGroup (i : Nat) (x : Cursor UInt8) :
    ((segmentGroup i).run x).head?.map Cursor.rest =
      if 0 < (x.rest.takeWhile notSlash).length then
        some (x.rest.drop (x.rest.takeWhile notSlash).length) else none := by
  rw [segmentGroup, Regex.run, List.head?_map, Regex.run_seqAll_singleton, Regex.head?_run_plus]
  split_ifs <;> rfl

/-- What is behind the first match of the expression for a parameter. -/
theorem head?_run_paramRegex (x : Cursor UInt8) : (paramRegex.run x).head?.map Cursor.rest =
    if bytes "/:" <+: x.rest ∧ 0 < ((x.rest.drop 2).takeWhile notSlash).length then
      some ((x.rest.drop 2).drop ((x.rest.drop 2).takeWhile notSlash).length) else none := by
  have hrun : paramRegex.run x = if bytes "/:" <+: x.rest then
      (Regex.seqAll [segmentGroup 1]).run (x.skip 2) else [] := Regex.run_literal _ _ x
  rw [hrun]
  split_ifs with hstart hname hname
  · rw [Regex.run_seqAll_singleton, head?_run_segmentGroup]
    exact if_pos hname.2
  · rw [Regex.run_seqAll_singleton, head?_run_segmentGroup]
    exact if_neg fun h => hname ⟨hstart, h⟩
  · exact absurd hname.1 hstart
  · rfl

/-- A match is replaced, or the scan goes on behind the next character. -/
theorem replaceFrom_cons (r : Regex UInt8) (format : Bytes) (fuel : Nat) (prev : Option UInt8)
    (b : UInt8) (text : Bytes) : ∃ prev', r.replaceFrom format (fuel + 1) prev (b :: text) =
      match (r.run { prev, rest := b :: text }).head?.map Cursor.rest with
      | some rest => format ++ r.replaceFrom format fuel prev' rest
      | none => b :: r.replaceFrom format fuel prev' text := by
  rw [Regex.replaceFrom]
  cases (r.run { prev, rest := b :: text }).head? with
  | none => exact ⟨some b, rfl⟩
  | some y => exact ⟨y.prev, rfl⟩

theorem replaceFrom_param {fuel : Nat} (prev : Option UInt8) {piece : Bytes} (h : 47 ∉ piece)
    (segments : List Segment)
    (hfuel : (piece ++ slashed (segments.map Segment.text)).length ≤ fuel) :
    paramRegex.replaceFrom (bytes "/([^/]+)") fuel prev
      (piece ++ slashed (segments.map Segment.text)) =
      piece ++ slashed (segments.map Segment.regexText) := by
  induction fuel generalizing prev piece segments with
  | zero =>
    have hnil := List.eq_nil_of_length_eq_zero (Nat.le_zero.mp hfuel)
    obtain ⟨rfl, hslashed⟩ := List.append_eq_nil_iff.mp hnil
    cases segments with
    | nil => rfl
    | cons segment segments => exact absurd hslashed (List.cons_ne_nil _ _)
  | succ fuel ih =>
    cases piece with
    | cons b piece =>
      obtain ⟨hb, hpiece⟩ := List.ne_and_not_mem_of_not_mem_cons h
      obtain ⟨prev', hstep⟩ := replaceFrom_cons paramRegex (bytes "/([^/]+)") fuel prev b
        (piece ++ slashed (segments.map Segment.text))
      have hnone : ¬ (bytes "/:" <+: b :: (piece ++ slashed (segments.map Segment.text))) :=
        fun hstart => hb (List.cons_prefix_cons.mp hstart).1
      rw [List.cons_append, hstep, head?_run_paramRegex, if_neg fun h => hnone h.1]
      rw [List.cons_append, List.length_cons] at hfuel
      exact congrArg (b :: ·) (ih prev' hpiece segments (Nat.le_of_succ_le_succ hfuel))
    | nil =>
      cases segments with
      | nil => rfl
      | cons segment segments =>
        rw [List.nil_append, List.map_cons, slashed_cons, List.length_cons] at hfuel
        obtain ⟨prev', hstep⟩ := replaceFrom_cons paramRegex (bytes "/([^/]+)") fuel prev 47
          (segment.text ++ slashed (segments.map Segment.text))
        rw [List.nil_append, List.map_cons, slashed_cons, hstep, head?_run_paramRegex]
        cases segment with
        | literal text noSlash noColon =>
          have hnone : ¬ (bytes "/:" <+: 47 :: (text ++ slashed (segments.map Segment.text))) := by
            intro hstart
            obtain ⟨rest, hrest⟩ := (List.cons_prefix_cons.mp hstart).2
            have hhead : some 58 = (text ++ slashed (segments.map Segment.text)).head? :=
              congrArg List.head? hrest
            rw [List.head?_append] at hhead
            cases htext : text.head? with
            | some b =>
              rw [htext, Option.some_or] at hhead
              exact noColon (htext.trans hhead.symm)
            | none =>
              rw [htext, Option.none_or] at hhead
              cases segments with
              | nil => exact absurd hhead (Option.some_ne_none _)
              | cons segment segments => exact absurd (Option.some.inj hhead) (by decide)
          rw [if_neg fun h => hnone h.1]
          exact congrArg (47 :: ·) (ih prev' noSlash segments (Nat.le_of_succ_le_succ hfuel))
        | param name named noSlash =>
          have hname := takeWhile_notSlash noSlash (segments.map Segment.text)
          have hdrop : (47 :: ((Segment.param name named noSlash).text ++
              slashed (segments.map Segment.text))).drop 2 =
              name ++ slashed (segments.map Segment.text) := rfl
          rw [hdrop, hname, List.drop_left, if_pos ⟨⟨_, rfl⟩, List.length_pos_iff.mpr named⟩]
          have hshorter : (slashed (segments.map Segment.text)).length ≤ fuel := by
            simp only [List.length_append] at hfuel
            omega
          exact congrArg (bytes "/([^/]+)" ++ ·) (ih prev' List.not_mem_nil segments hshorter)

theorem replace_path (p : RoutePattern) :
    paramRegex.replace (bytes "/([^/]+)") p.path =
      p.first.text ++ slashed (p.others.map Segment.regexText) :=
  replaceFrom_param none p.first.text_noSlash p.others le_rfl

/-! ## The regular expression of a pattern -/

namespace Segment

/-- The text is read as it is written. -/
def Verbatim : Segment → Prop
  | literal text _ _ => ∀ b ∈ text, b ∉ metas
  | param _ _ _ => True

def tokens : Segment → List Token
  | literal text _ _ => text.map fun b => .atom (RegexText.literal b)
  | param _ _ _ => segmentTokens

/-- The terms for the segment, behind `n` groups. -/
def terms (n : Nat) : Segment → List (Regex UInt8)
  | literal text _ _ => text.map RegexText.literal
  | param _ _ _ => [segmentGroup (n + 1)]

def groups : Segment → Nat
  | literal _ _ _ => 0
  | param _ _ _ => 1

theorem lex_regexText {s : Segment} (h : s.Verbatim) (rest : Bytes) :
    lex (s.regexText ++ rest) = (lex rest).map (s.tokens ++ ·) := by
  cases s with
  | literal text => exact lex_literal h rest
  | param => exact lex_segment rest

theorem parse_tokens (s : Segment) (st : ParseState) : s.tokens.foldlM parseToken st =
    some (st.pushAll (s.terms st.groups) s.groups) := by
  cases s with
  | literal text => exact parse_literal text st
  | param => exact parse_segment st

theorem lastBackref_terms (s : Segment) (n : Nat) : ∀ r ∈ s.terms n, r.lastBackref = 0 := by
  cases s with
  | literal text =>
    intro r hr
    obtain ⟨b, -, rfl⟩ := List.mem_map.mp hr
    rfl
  | param => exact List.forall_mem_singleton.mpr rfl

end Segment

def slash : Regex UInt8 := literal 47

def allTokens (segments : List Segment) : List Token :=
  segments.flatMap fun s => .atom slash :: s.tokens

def allTerms : Nat → List Segment → List (Regex UInt8)
  | _, [] => []
  | n, s :: segments => slash :: (s.terms n ++ allTerms (n + s.groups) segments)

def allGroups (segments : List Segment) : Nat := (segments.map Segment.groups).sum

theorem lex_segments {segments : List Segment} (h : ∀ s ∈ segments, s.Verbatim) :
    lex (slashed (segments.map Segment.regexText)) = some (allTokens segments) := by
  induction segments with
  | nil => rfl
  | cons s segments ih =>
    obtain ⟨hs, hsegments⟩ := List.forall_mem_cons.mp h
    have hslash : ∀ b ∈ [(47 : UInt8)], b ∉ metas := List.forall_mem_singleton.mpr (by decide)
    have hlex := lex_literal hslash (s.regexText ++ slashed (segments.map Segment.regexText))
    rw [List.map_cons, slashed_cons]
    refine hlex.trans ?_
    rw [Segment.lex_regexText hs, ih hsegments]
    rfl

theorem parse_segments (segments : List Segment) (st : ParseState) :
    (allTokens segments).foldlM parseToken st =
      some (st.pushAll (allTerms st.groups segments) (allGroups segments)) := by
  induction segments generalizing st with
  | nil => rfl
  | cons s segments ih =>
    have hslash : parseToken st (.atom slash) = some (st.pushAll [slash] 0) := rfl
    rw [allTokens, List.flatMap_cons, List.cons_append, List.foldlM_cons, hslash,
      Option.bind_eq_bind, Option.bind_some, List.foldlM_append, Segment.parse_tokens,
      Option.bind_eq_bind, Option.bind_some]
    refine (ih _).trans ?_
    rw [pushAll_pushAll, pushAll_pushAll]
    congr 2
    rw [Nat.zero_add, allGroups, allGroups, List.map_cons, List.sum_cons]

theorem lastBackref_seqAll {rs : List (Regex UInt8)} (h : ∀ r ∈ rs, r.lastBackref = 0) :
    (Regex.seqAll rs).lastBackref = 0 := by
  induction rs with
  | nil => rfl
  | cons r rs ih =>
    obtain ⟨hr, hrs⟩ := List.forall_mem_cons.mp h
    have hseq : (Regex.seqAll (r :: rs)).lastBackref =
        max r.lastBackref (Regex.seqAll rs).lastBackref := rfl
    rw [hseq, hr, ih hrs, Nat.max_self]

theorem lastBackref_allTerms (segments : List Segment) (n : Nat) :
    ∀ r ∈ allTerms n segments, r.lastBackref = 0 := by
  induction segments generalizing n with
  | nil => exact fun r hr => absurd hr List.not_mem_nil
  | cons s segments ih =>
    refine List.forall_mem_cons.mpr ⟨rfl, fun r hr => ?_⟩
    rcases List.mem_append.mp hr with hr | hr
    · exact s.lastBackref_terms n r hr
    · exact ih _ r hr

/-- The terms of a pattern whose first segment is read as it is written. -/
def patternTerms (first : Bytes) (others : List Segment) : List (Regex UInt8) :=
  .lineBegin :: (first.map literal ++ allTerms 0 others)

/-- Behind the `^` that every pattern begins with. -/
def begun : ParseState where
  frame := { terms := [(.lineBegin, false)] }

theorem regex_begun (terms : List (Regex UInt8)) (k : Nat) :
    (begun.pushAll terms k).frame.regex = .seqAll (.lineBegin :: terms) := by
  simp [begun, ParseState.pushAll, Frame.regex, Frame.last, Function.comp_def]

theorem compile_segments {first : Bytes} (hfirst : ∀ b ∈ first, b ∉ metas)
    {others : List Segment} (hothers : ∀ s ∈ others, s.Verbatim) :
    compile (bytes "^" ++ (first ++ slashed (others.map Segment.regexText))) =
      some (.seqAll (patternTerms first others), allGroups others) := by
  have hcaret (rest : Bytes) : lex (bytes "^" ++ rest) =
      (lex rest).map (.assertion .lineBegin :: ·) := lex_cons 94 rest
  have hparse : (.assertion .lineBegin :: (first.map (fun b => .atom (literal b)) ++
      allTokens others)).foldlM parseToken {} = some (begun.pushAll
        (first.map literal ++ allTerms 0 others) (allGroups others)) := by
    rw [List.foldlM_cons, show parseToken {} (.assertion .lineBegin) = some begun
      from rfl, Option.bind_eq_bind, Option.bind_some, List.foldlM_append, parse_literal,
      Option.bind_eq_bind, Option.bind_some, parse_segments, pushAll_pushAll, Nat.zero_add]
    rfl
  have hback : (Regex.seqAll (patternTerms first others)).lastBackref = 0 := by
    refine lastBackref_seqAll (List.forall_mem_cons.mpr ⟨rfl, fun r hr => ?_⟩)
    rcases List.mem_append.mp hr with hr | hr
    · obtain ⟨b, -, rfl⟩ := List.mem_map.mp hr
      rfl
    · exact lastBackref_allTerms others 0 r hr
  rw [compile, hcaret, lex_literal hfirst, lex_segments hothers]
  have hclosed (terms : List (Regex UInt8)) (k : Nat) :
      (begun.pushAll terms k).opened.isEmpty = true := rfl
  have hregex : (begun.pushAll (first.map literal ++ allTerms 0 others)
      (allGroups others)).frame.regex = .seqAll (patternTerms first others) := regex_begun _ _
  rw [Option.map_some, Option.map_some, Option.bind_some, parse, hparse, Option.bind_eq_bind,
    Option.bind_some, hregex, if_pos ⟨hclosed _ _, hback.le.trans (Nat.zero_le _)⟩]
  exact congrArg (fun k => some (_, k)) (Nat.zero_add _)

/-! ## The pieces of a path -/

theorem splitOn_slashed {piece : Bytes} {pieces : List Bytes} (h : 47 ∉ piece)
    (hs : ∀ p ∈ pieces, 47 ∉ p) : (piece ++ slashed pieces).splitOn 47 = piece :: pieces := by
  induction pieces generalizing piece with
  | nil => rw [show slashed [] = [] from rfl, List.append_nil, List.splitOn_eq_singleton h]
  | cons p pieces ih =>
    obtain ⟨hp, hpieces⟩ := List.forall_mem_cons.mp hs
    rw [slashed_cons, List.splitOn_append_cons_self_of_not_mem h, ih hp hpieces]

theorem exists_pieces (path : Bytes) : ∃ piece pieces,
    path = piece ++ slashed pieces ∧ 47 ∉ piece ∧ ∀ p ∈ pieces, 47 ∉ p := by
  induction path with
  | nil => exact ⟨[], [], rfl, List.not_mem_nil, fun p hp => absurd hp List.not_mem_nil⟩
  | cons b path ih =>
    obtain ⟨piece, pieces, rfl, hpiece, hpieces⟩ := ih
    by_cases hb : b = 47
    · exact ⟨[], piece :: pieces, hb ▸ rfl, List.not_mem_nil,
        List.forall_mem_cons.mpr ⟨hpiece, hpieces⟩⟩
    · exact ⟨b :: piece, pieces, rfl, List.not_mem_cons_of_ne_of_not_mem (Ne.symm hb) hpiece,
        hpieces⟩

/-! ## The matches of a pattern -/

/-- The groups behind the first `n`, with these texts. -/
def captured (n : Nat) : List Bytes → (Nat → Option Bytes) → Nat → Option Bytes
  | [], captures => captures
  | param :: params, captures =>
    captured (n + 1) params (Function.update captures (n + 1) (some param))

theorem captured_of_le {n i : Nat} (h : i ≤ n) (params : List Bytes)
    (captures : Nat → Option Bytes) : captured n params captures i = captures i := by
  induction params generalizing n captures with
  | nil => rfl
  | cons param params ih =>
    rw [captured, ih (Nat.le_succ_of_le h), Function.update_of_ne (by omega)]

theorem captured_apply (n : Nat) (params : List Bytes) (captures : Nat → Option Bytes) {i : Nat}
    (h : i < params.length) : captured n params captures (n + i + 1) = some params[i] := by
  induction params generalizing n i captures with
  | nil => exact absurd h (Nat.not_lt_zero _)
  | cons param params ih =>
    cases i with
    | zero => rw [captured, captured_of_le le_rfl, Nat.add_zero, Function.update_self]; rfl
    | succ i =>
      have hparam := ih (n + 1) (Function.update captures (n + 1) (some param))
        (Nat.lt_of_succ_lt_succ h)
      rwa [Nat.add_right_comm n 1 i] at hparam

theorem captured_texts (params : List Bytes) (captures : Nat → Option Bytes) :
    ((List.range params.length).map fun i =>
      (captured 0 params captures (i + 1)).getD []) = params := by
  refine List.ext_getElem (by simp) fun i hi hi' => ?_
  have hparam := captured_apply 0 params captures hi'
  rw [Nat.zero_add] at hparam
  rw [List.getElem_map, List.getElem_range, hparam, Option.getD_some]

/-- Behind a piece that a segment has taken, with the parameters of the segment. -/
def behind (n : Nat) (piece : Bytes) (params : List Bytes) (x : Cursor UInt8) : Cursor UInt8 :=
  { x.skip piece.length with captures := captured n params x.captures }

theorem notSlash_takeWhile {piece rest : Bytes} (hpiece : piece <+: rest) (h : 47 ∉ piece) :
    piece.length ≤ (rest.takeWhile notSlash).length := by
  obtain ⟨rest, rfl⟩ := hpiece
  rw [List.takeWhile_append_of_pos (notSlash_of_mem h), List.length_append]
  exact Nat.le_add_right _ _

theorem not_mem_take {rest : Bytes} {k : Nat} (h : k ≤ (rest.takeWhile notSlash).length) :
    47 ∉ rest.take k := by
  intro hmem
  have htake : rest.take k = (rest.takeWhile notSlash).take k := by
    conv_lhs => rw [← List.takeWhile_append_dropWhile (p := notSlash) (l := rest)]
    exact List.take_append_of_le_length h
  rw [htake] at hmem
  exact absurd (List.mem_takeWhile_imp (List.mem_of_mem_take hmem)) (by decide)

namespace Segment

/-- A segment matches the pieces that it takes. -/
theorem mem_run_terms (s : Segment) (n : Nat) (rs : List (Regex UInt8)) (x y : Cursor UInt8) :
    y ∈ (Regex.seqAll (s.terms n ++ rs)).run x ↔ ∃ piece params, piece <+: x.rest ∧ 47 ∉ piece ∧
      s.take piece = some params ∧ y ∈ (Regex.seqAll rs).run (behind n piece params x) := by
  cases s with
  | literal text noSlash noColon =>
    have hrun : (Regex.seqAll ((literal text noSlash noColon).terms n ++ rs)).run x =
      if text <+: x.rest then (Regex.seqAll rs).run (x.skip text.length) else [] :=
      Regex.run_literal text rs x
    rw [hrun]
    constructor
    · intro hy
      split_ifs at hy with hstart
      · exact ⟨text, [], hstart, noSlash, if_pos rfl, hy⟩
      · exact absurd hy List.not_mem_nil
    · rintro ⟨piece, params, hstart, -, htake, hy⟩
      rw [take] at htake
      split_ifs at htake with heq
      obtain rfl := Option.some.inj htake
      subst heq
      rw [if_pos hstart]
      exact hy
  | param name =>
    rw [terms, List.singleton_append, Regex.run_seqAll_cons, List.mem_flatMap]
    simp only [segmentGroup, Regex.mem_run_group_plus]
    constructor
    · rintro ⟨_, ⟨k, hpos, hk, rfl⟩, hy⟩
      have hlength : (x.rest.take k).length = k := by
        have := (List.takeWhile_sublist notSlash (l := x.rest)).length_le
        rw [List.length_take]
        omega
      have hne : x.rest.take k ≠ [] := List.ne_nil_of_length_pos (hlength.symm ▸ hpos)
      refine ⟨x.rest.take k, [x.rest.take k], List.take_prefix _ _, not_mem_take hk, if_neg hne, ?_⟩
      rw [behind, hlength]
      exact hy
    · rintro ⟨piece, params, hstart, hslash, htake, hy⟩
      rw [take] at htake
      split_ifs at htake with hne
      obtain rfl := Option.some.inj htake
      refine ⟨_, ⟨piece.length, List.length_pos_iff.mpr hne, notSlash_takeWhile hstart hslash,
        rfl⟩, ?_⟩
      rw [← List.prefix_iff_eq_take.mp hstart]
      exact hy

theorem length_of_take {s : Segment} {piece : Bytes} {params : List Bytes}
    (h : s.take piece = some params) : params.length = s.groups := by
  cases s <;> rw [take] at h <;> split_ifs at h <;> rw [← Option.some.inj h] <;> rfl

end Segment

theorem captured_append (n : Nat) (params params' : List Bytes) (captures : Nat → Option Bytes) :
    captured n (params ++ params') captures =
      captured (n + params.length) params' (captured n params captures) := by
  induction params generalizing n captures with
  | nil => rfl
  | cons param params ih =>
    rw [List.cons_append, captured, ih, captured, List.length_cons, Nat.add_right_comm, Nat.add_assoc]

theorem takeAll_cons_eq_some {s : Segment} {segments : List Segment} {pieces : List Bytes}
    {params : List Bytes} : takeAll (s :: segments) pieces = some params ↔
      ∃ piece pieces' first rest, pieces = piece :: pieces' ∧ s.take piece = some first ∧
        takeAll segments pieces' = some rest ∧ params = first ++ rest := by
  cases pieces with
  | nil => simp [takeAll]
  | cons piece pieces =>
    simp only [takeAll, Option.bind_eq_some_iff, Option.map_eq_some_iff, List.cons.injEq]
    constructor
    · rintro ⟨first, hfirst, rest, hrest, rfl⟩
      exact ⟨piece, pieces, first, rest, ⟨rfl, rfl⟩, hfirst, hrest, rfl⟩
    · rintro ⟨_, _, first, rest, ⟨rfl, rfl⟩, hfirst, hrest, rfl⟩
      exact ⟨first, hfirst, rest, hrest, rfl⟩

/-- At the end of the text, with the parameters of all segments. -/
def finished (n : Nat) (params : List Bytes) (x : Cursor UInt8) : Cursor UInt8 :=
  { x.skip x.rest.length with captures := captured n params x.captures }

theorem finished_skip {n : Nat} {params : List Bytes} {x : Cursor UInt8} {rest : Bytes}
    (h : x.rest = 47 :: rest) : finished n params (x.skip 1) = finished n params x := by
  rw [finished, finished, Cursor.skip_skip, Cursor.skip_rest, h, Nat.add_comm]
  rfl

theorem finished_behind {n : Nat} {piece : Bytes} {params params' : List Bytes}
    {x : Cursor UInt8} (h : piece.length ≤ x.rest.length) :
    finished (n + params.length) params' (behind n piece params x) =
      finished n (params ++ params') x := by
  have hskip : (x.skip piece.length).skip (x.rest.drop piece.length).length =
      x.skip x.rest.length := by
    rw [Cursor.skip_skip, List.length_drop, Nat.add_sub_cancel' h]
  rw [finished, finished, captured_append, ← hskip]
  rfl

theorem mem_run_allTerms {segments : List Segment} {n : Nat} {x y : Cursor UInt8} :
    y ∈ (Regex.seqAll (allTerms n segments)).run x ∧ y.rest = [] ↔
      ∃ pieces params, x.rest = slashed pieces ∧ (∀ p ∈ pieces, 47 ∉ p) ∧
        takeAll segments pieces = some params ∧ y = finished n params x := by
  induction segments generalizing n x with
  | nil =>
    constructor
    · rintro ⟨hy, hrest⟩
      obtain rfl := List.mem_singleton.mp hy
      refine ⟨[], [], hrest, fun p hp => absurd hp List.not_mem_nil, rfl, ?_⟩
      rw [finished, hrest]
      rfl
    · rintro ⟨pieces, params, hrest, -, htake, rfl⟩
      cases pieces with
      | cons piece pieces => exact absurd htake (Option.some_ne_none _).symm
      | nil =>
        obtain rfl : [] = params := Option.some.inj htake
        rw [finished, hrest]
        exact ⟨List.mem_singleton_self _, hrest⟩
  | cons s segments ih =>
    have hrun : (Regex.seqAll (allTerms n (s :: segments))).run x = if [47] <+: x.rest then
        (Regex.seqAll (s.terms n ++ allTerms (n + s.groups) segments)).run (x.skip 1) else [] :=
      Regex.run_literal [47] _ x
    rw [hrun]
    constructor
    · rintro ⟨hy, hend⟩
      split_ifs at hy with hslash
      · obtain ⟨rest, hrest⟩ := hslash
        have hskip : (x.skip 1).rest = rest := by rw [Cursor.skip_rest, ← hrest]; rfl
        obtain ⟨piece, params, hstart, hpiece, htake, hy⟩ := (s.mem_run_terms _ _ _ _).mp hy
        rw [← s.length_of_take htake] at hy
        obtain ⟨pieces, params', hpieces, hslashes, htakeAll, rfl⟩ := ih.mp ⟨hy, hend⟩
        have hdrop : (x.skip 1).rest.drop piece.length = slashed pieces := hpieces
        refine ⟨piece :: pieces, params ++ params', ?_, List.forall_mem_cons.mpr ⟨hpiece, hslashes⟩,
          takeAll_cons_eq_some.mpr ⟨piece, pieces, params, params', rfl, htake, htakeAll, rfl⟩, ?_⟩
        · rw [slashed_cons, ← hdrop, List.prefix_iff_eq_append.mp hstart, hskip]
          exact hrest.symm
        · rw [finished_behind hstart.length_le, finished_skip hrest.symm]
      · exact absurd hy List.not_mem_nil
    · rintro ⟨pieces, params, hrest, hslashes, htake, rfl⟩
      obtain ⟨piece, pieces, first, rest, rfl, hfirst, hothers, rfl⟩ :=
        takeAll_cons_eq_some.mp htake
      obtain ⟨hpiece, hpieces⟩ := List.forall_mem_cons.mp hslashes
      rw [slashed_cons] at hrest
      have hskip : (x.skip 1).rest = piece ++ slashed pieces := by rw [Cursor.skip_rest, hrest]; rfl
      have hstart : piece <+: (x.skip 1).rest := hskip ▸ List.prefix_append _ _
      have hbehind : (behind n piece first (x.skip 1)).rest = slashed pieces := by
        have hdrop : (x.skip 1).rest.drop piece.length = slashed pieces := by
          rw [hskip, List.drop_left]
        exact hdrop
      have heq : finished n (first ++ rest) x =
          finished (n + s.groups) rest (behind n piece first (x.skip 1)) := by
        rw [← s.length_of_take hfirst, finished_behind hstart.length_le, finished_skip hrest]
      have hmem := ih.mpr ⟨pieces, rest, hbehind, hpieces, hothers, heq⟩
      rw [if_pos ⟨_, hrest.symm⟩]
      exact ⟨(s.mem_run_terms _ _ _ _).mpr ⟨piece, first, hstart, hpiece, hfirst, hmem.1⟩, hmem.2⟩

theorem length_of_takeAll {segments : List Segment} {pieces params : List Bytes}
    (h : takeAll segments pieces = some params) : params.length = allGroups segments := by
  induction segments generalizing pieces params with
  | nil =>
    cases pieces with
    | nil => rw [← Option.some.inj h]; rfl
    | cons piece pieces => exact absurd h (Option.some_ne_none _).symm
  | cons s segments ih =>
    obtain ⟨piece, pieces, first, rest, rfl, hfirst, hrest, rfl⟩ := takeAll_cons_eq_some.mp h
    rw [List.length_append, s.length_of_take hfirst, ih hrest, allGroups, allGroups,
      List.map_cons, List.sum_cons]

section Matching

variable {first : Bytes} (hfirst : 47 ∉ first) (others : List Segment) {piece : Bytes}
  {pieces : List Bytes} (hpiece : 47 ∉ piece) (hpieces : ∀ p ∈ pieces, 47 ∉ p)

include hfirst hpiece hpieces

theorem mem_run_patternTerms (y : Cursor UInt8) :
    y ∈ (Regex.seqAll (patternTerms first others)).run { rest := piece ++ slashed pieces } ∧
      y.rest = [] ↔ piece = first ∧ ∃ params, takeAll others pieces = some params ∧
        y = finished 0 params (Cursor.skip first.length { rest := piece ++ slashed pieces }) := by
  have hrun : (Regex.seqAll (patternTerms first others)).run { rest := piece ++ slashed pieces } =
      if first <+: piece ++ slashed pieces then (Regex.seqAll (allTerms 0 others)).run
        (Cursor.skip first.length { rest := piece ++ slashed pieces }) else [] := by
    rw [patternTerms, Regex.run_seqAll_cons, Regex.run, if_pos rfl, List.flatMap_singleton]
    exact Regex.run_literal first _ _
  rw [hrun]
  constructor
  · rintro ⟨hy, hend⟩
    split_ifs at hy with hstart
    · obtain ⟨pieces', params, hrest, hslashes, htake, rfl⟩ := mem_run_allTerms.mp ⟨hy, hend⟩
      have hpath : piece ++ slashed pieces = first ++ slashed pieces' := by
        rw [← hrest]
        exact (List.prefix_iff_eq_append.mp hstart).symm
      have hsplit := splitOn_slashed hpiece hpieces
      rw [hpath, splitOn_slashed hfirst hslashes] at hsplit
      obtain ⟨rfl, rfl⟩ := List.cons.inj hsplit
      exact ⟨rfl, params, htake, rfl⟩
    · exact absurd hy List.not_mem_nil
  · rintro ⟨rfl, params, htake, rfl⟩
    rw [if_pos (List.prefix_append _ _)]
    exact mem_run_allTerms.mpr ⟨pieces, params, List.drop_left, hpieces, htake, rfl⟩

/-- A pattern with the text `first` in front, where every character means itself. -/
theorem regexMatch_patternTerms :
    regexMatch (.seqAll (patternTerms first others), allGroups others) (piece ++ slashed pieces) =
      if piece = first then takeAll others pieces else none := by
  have hmem := mem_run_patternTerms hfirst others hpiece hpieces
  rw [regexMatch, Regex.fullMatch]
  dsimp only
  cases hfind : ((Regex.seqAll (patternTerms first others)).run
      { rest := piece ++ slashed pieces }).find? (·.rest.isEmpty) with
  | none =>
    rw [Option.map_none]
    split_ifs with heq
    · cases htake : takeAll others pieces with
      | none => rfl
      | some params =>
        obtain ⟨hy, hend⟩ := (hmem _).mpr ⟨heq, params, htake, rfl⟩
        have hfull := List.find?_eq_none.mp hfind _ hy
        rw [hend] at hfull
        exact absurd rfl hfull
    · rfl
  | some y =>
    have hend : y.rest = [] := List.isEmpty_iff.mp
      (List.find?_some (p := fun x : Cursor UInt8 => x.rest.isEmpty) hfind)
    obtain ⟨heq, params, htake, rfl⟩ := (hmem y).mp ⟨List.mem_of_find?_eq_some hfind, hend⟩
    rw [if_pos heq, htake, Option.map_some, ← length_of_takeAll htake]
    exact congrArg some (captured_texts params _)

end Matching

/-! ## Matching segment by segment -/

namespace Segment

def IsLiteral : Segment → Prop
  | literal _ _ _ => True
  | param _ _ _ => False

/-- No backslash and no bracket is in a literal. -/
def WithoutSets : Segment → Prop
  | literal text _ _ => 91 ∉ text ∧ 92 ∉ text
  | param _ _ _ => True

/-- A piece that the segment takes. -/
def sample : Segment → Bytes
  | literal text _ _ => text
  | param _ _ _ => [97]

theorem sample_noSlash (s : Segment) : 47 ∉ s.sample := by
  cases s with
  | literal text noSlash => exact noSlash
  | param => exact List.not_mem_cons_of_ne_of_not_mem (by decide) List.not_mem_nil

theorem take_of_not_isLiteral {s : Segment} (h : ¬ s.IsLiteral) (piece : Bytes) :
    s.take piece = if piece = [] then none else some [piece] := by
  cases s with
  | literal => exact absurd trivial h
  | param => rfl

theorem isSome_take_sample (s : Segment) : (s.take s.sample).isSome := by
  cases s with
  | literal text => rw [take, sample, if_pos rfl]; rfl
  | param => rfl

end Segment

namespace RoutePattern

variable (p : RoutePattern)

/-- The route takes the paths that the pattern takes segment by segment, and it gives the handler
the pieces at the parameters. -/
def MatchesBySegment : Prop :=
  ∃ pattern, Router.convertToRegex p.path = some pattern ∧ ∀ req : HttpRequest,
    match pattern req.path_ with
    | none => p.params req.path_ = none
    | some captures => ∃ params, p.params req.path_ = some params ∧
      (∀ i, (h : i < params.length) →
        (Router.extractPathParameters captures req).pathParameters_.lookup (paramKey i) =
          some params[i]) ∧
      SameButParams params.length req (Router.extractPathParameters captures req)

/-- No character of a literal means anything but itself, and a slash is in front of every
parameter. -/
def Plain : Prop := (∀ s ∈ p.first :: p.others, s.Verbatim) ∧ p.first.IsLiteral

structure WithoutSets : Prop where
  first : 91 ∉ p.first.text ∧ 92 ∉ p.first.text
  others : ∀ s ∈ p.others, s.WithoutSets

variable {p}

theorem convertToRegex_path (path : Bytes) : Router.convertToRegex path =
    (compile (bytes "^" ++ paramRegex.replace (bytes "/([^/]+)") path)).map regexMatch := by
  rw [Router.convertToRegex, compile_param, Option.bind_eq_bind, Option.bind_some]
  dsimp only
  cases compile (bytes "^" ++ paramRegex.replace (bytes "/([^/]+)") path) <;> rfl

theorem convertToRegex_verbatim (hfirst : ∀ b ∈ p.first.text, b ∉ metas)
    (hothers : ∀ s ∈ p.others, s.Verbatim) : Router.convertToRegex p.path =
      some (regexMatch (.seqAll (patternTerms p.first.text p.others), allGroups p.others)) := by
  rw [convertToRegex_path, replace_path, compile_segments hfirst hothers]
  rfl

theorem params_slashed {piece : Bytes} {pieces : List Bytes} (h : 47 ∉ piece)
    (hs : ∀ p ∈ pieces, 47 ∉ p) : p.params (piece ++ slashed pieces) =
      (p.first.take piece).bind fun params => (takeAll p.others pieces).map (params ++ ·) := by
  rw [params, splitOn_slashed h hs, takeAll]

theorem matchesBySegment_of_plain (h : p.Plain) : p.MatchesBySegment := by
  obtain ⟨hverbatim, hliteral⟩ := h
  obtain ⟨hfirst, hothers⟩ := List.forall_mem_cons.mp hverbatim
  obtain ⟨first, others⟩ := p
  cases first with
  | param name named noSlash => exact absurd hliteral not_false
  | literal text noSlash noColon =>
    refine ⟨_, convertToRegex_verbatim hfirst hothers, fun req => ?_⟩
    obtain ⟨piece, pieces, hpath, hpiece, hpieces⟩ := exists_pieces req.path_
    have hmatch : regexMatch (.seqAll (patternTerms text others), allGroups others) req.path_ =
        params ⟨.literal text noSlash noColon, others⟩ req.path_ := by
      rw [hpath, regexMatch_patternTerms noSlash others hpiece hpieces,
        params_slashed hpiece hpieces, Segment.take]
      split_ifs
      · exact (Option.map_id' (x := takeAll others pieces)).symm
      · rfl
    dsimp only [Segment.text]
    rw [hmatch]
    cases params ⟨.literal text noSlash noColon, others⟩ req.path_ with
    | none => rfl
    | some params =>
      exact ⟨params, rfl, fun i hi => Router.lookup_extractPathParameters params req hi,
        Router.sameButParams_extractPathParameters params req⟩

/-! ### What else a pattern with other characters matches -/

theorem isSome_params {pattern : Pattern} (hpattern : Router.convertToRegex p.path = some pattern)
    (h : p.MatchesBySegment) (path : Bytes) : (pattern path).isSome = (p.params path).isSome := by
  obtain ⟨pattern', hpattern', hmatch⟩ := h
  obtain rfl := Option.some.inj (hpattern.symm.trans hpattern')
  have hpath := hmatch { path_ := path }
  dsimp only at hpath
  split at hpath
  · next hnone => rw [hnone, hpath]
  · next captures hsome =>
    obtain ⟨params, hparams, -⟩ := hpath
    rw [hsome, hparams]
    rfl

theorem exists_compile (h : p.MatchesBySegment) : ∃ regex,
    compile (bytes "^" ++ (p.first.text ++ slashed (p.others.map Segment.regexText))) =
        some regex ∧
      ∀ path, (regexMatch regex path).isSome = (p.params path).isSome := by
  obtain ⟨pattern, hpattern, -⟩ := id h
  have hcompile := hpattern
  rw [convertToRegex_path, replace_path] at hcompile
  obtain ⟨regex, hregex, rfl⟩ := Option.map_eq_some_iff.mp hcompile
  exact ⟨regex, hregex, isSome_params hpattern h⟩

theorem isSome_takeAll (segments : List Segment) (piece : Segment → Bytes) :
    (takeAll segments (segments.map piece)).isSome ↔
      ∀ s ∈ segments, (s.take (piece s)).isSome := by
  induction segments with
  | nil => exact iff_of_true rfl fun s hs => absurd hs List.not_mem_nil
  | cons s segments ih =>
    rw [List.forall_mem_cons, ← ih, List.map_cons, takeAll]
    cases s.take (piece s) with
    | none => simp
    | some params => simp

/-- Pieces, one for each segment, make a path of the pattern if the segments take them. -/
theorem isSome_params_pieces {piece : Segment → Bytes}
    (hslash : ∀ s ∈ p.first :: p.others, 47 ∉ piece s) :
    (p.params (piece p.first ++ slashed (p.others.map piece))).isSome ↔
      ∀ s ∈ p.first :: p.others, (s.take (piece s)).isSome := by
  obtain ⟨hfirst, hothers⟩ := List.forall_mem_cons.mp hslash
  rw [params, splitOn_slashed hfirst (List.forall_mem_map.mpr hothers)]
  exact isSome_takeAll (p.first :: p.others) piece

theorem textInvariant_segments {π : UInt8 → UInt8} (hkeeps : ∀ b, b ∉ metas → Keeps π b)
    {segments : List Segment} (h : ∀ s ∈ segments, s.WithoutSets) :
    TextInvariant π (slashed (segments.map Segment.regexText)) := by
  have hslash : Keeps π 47 := hkeeps 47 (by decide)
  induction segments with
  | nil => exact textInvariant_nil
  | cons s segments ih =>
    obtain ⟨hs, hsegments⟩ := List.forall_mem_cons.mp h
    refine textInvariant_cons (by decide) (fun _ => hslash) (fun heq => absurd heq (by decide)) ?_
    cases s with
    | literal text =>
      exact textInvariant_append hs.1 hs.2 (fun b _ => hkeeps b) (ih hsegments)
    | param => exact textInvariant_segment hslash (ih hsegments)

theorem textInvariant_regexText {π : UInt8 → UInt8} (hkeeps : ∀ b, b ∉ metas → Keeps π b)
    (hsets : p.WithoutSets) : TextInvariant π
      (bytes "^" ++ (p.first.text ++ slashed (p.others.map Segment.regexText))) := by
  have hcaret : 91 ∉ bytes "^" ∧ 92 ∉ bytes "^" := by decide
  have hothers := textInvariant_segments hkeeps hsets.others
  exact textInvariant_append hcaret.1 hcaret.2 (fun b _ => hkeeps b)
    (textInvariant_append hsets.first.1 hsets.first.2 (fun b _ => hkeeps b) hothers)

theorem map_slashed {π : UInt8 → UInt8} (h : π 47 = 47) (pieces : List Bytes) :
    (slashed pieces).map π = slashed (pieces.map (List.map π)) := by
  induction pieces with
  | nil => rfl
  | cons piece pieces ih =>
    rw [slashed_cons, List.map_cons, h, List.map_append, ih, List.map_cons, slashed_cons]

/-- Characters that the regular expression takes for each other have to be so in the pattern. -/
theorem isSome_take_map (hsets : p.WithoutSets) (h : p.MatchesBySegment) {π : UInt8 → UInt8}
    (hkeeps : ∀ b, b ∉ metas → Keeps π b) :
    ∀ s ∈ p.first :: p.others, (s.take (s.sample.map π)).isSome := by
  have hslash : Keeps π 47 := hkeeps 47 (by decide)
  obtain ⟨regex, hregex, hmatches⟩ := exists_compile h
  have hinv := compile_invariant (hkeeps LF (by decide)) (hkeeps CR (by decide))
    (textInvariant_regexText hkeeps hsets) hregex
  have hpath := hmatches (p.first.sample ++ slashed (p.others.map Segment.sample))
  have hmapped := hmatches (p.first.sample.map π ++ slashed (p.others.map fun s => s.sample.map π))
  have htaken := (isSome_params_pieces fun s _ => s.sample_noSlash).mpr
    fun s (_ : s ∈ p.first :: p.others) => s.isSome_take_sample
  have hnoSlash : ∀ s ∈ p.first :: p.others, 47 ∉ s.sample.map π := by
    intro s _ hmem
    obtain ⟨b, hb, hb47⟩ := List.mem_map.mp hmem
    exact s.sample_noSlash ((hslash b).mp hb47 ▸ hb)
  refine (isSome_params_pieces hnoSlash).mp ?_
  rw [← hmapped]
  have htext : p.first.sample.map π ++ slashed (p.others.map fun s => s.sample.map π) =
      (p.first.sample ++ slashed (p.others.map Segment.sample)).map π := by
    rw [List.map_append, map_slashed ((hslash 47).mpr rfl), List.map_map]
    rfl
  rw [htext, regexMatch, Option.isSome_map, Regex.fullMatch_map hinv, Option.isSome_map]
  rwa [htaken, regexMatch, Option.isSome_map] at hpath

/-- Two characters that mean something else are taken for each other everywhere. -/
theorem verbatim_of_matchesBySegment (hsets : p.WithoutSets) (h : p.MatchesBySegment) :
    ∀ s ∈ p.first :: p.others, s.Verbatim := by
  intro s hs
  cases s with
  | param => trivial
  | literal text noSlash noColon =>
    intro b hb hmeta
    obtain ⟨c, hc, hcb⟩ : ∃ c ∈ metas, c ≠ b := by
      by_cases hcaret : b = 94
      · exact ⟨36, by decide, hcaret ▸ by decide⟩
      · exact ⟨94, by decide, Ne.symm hcaret⟩
    have hkeeps : ∀ d, d ∉ metas → Keeps (Equiv.swap b c) d := by
      intro d hd e
      have hfix : Equiv.swap b c d = d :=
        Equiv.swap_apply_of_ne_of_ne (fun heq => hd (heq ▸ hmeta)) fun heq => hd (heq ▸ hc)
      rw [Equiv.swap_apply_eq_iff, hfix]
    have htake := isSome_take_map hsets h hkeeps _ hs
    rw [Segment.take, Segment.sample] at htake
    split_ifs at htake with hmap
    · have hswap : Equiv.swap b c b = b :=
        List.map_inj_left.mp (hmap.trans (List.map_id text).symm) b hb
      rw [Equiv.swap_apply_left] at hswap
      exact hcb hswap
    · exact absurd htake (by decide)

theorem lex_first {head : Bytes} (hset : 91 ∉ head) (hescape : 92 ∉ head)
    {segments : List Segment} (h : ∀ s ∈ segments, s.Verbatim) :
    lex (head ++ slashed (segments.map Segment.regexText)) =
      (lex head).map (· ++ allTokens segments) := by
  cases segments with
  | nil =>
    rw [List.map_nil, show slashed [] = [] from rfl, List.append_nil,
      show allTokens [] = [] from rfl]
    simp only [List.append_nil, Option.map_id']
  | cons s segments =>
    have htail := lex_segments h
    rw [List.map_cons, slashed_cons] at htail ⊢
    rw [lex_slash head _ hset hescape, htail]
    cases lex head <;> rfl

/-- The expression of a pattern: alternatives and terms from the first segment, and the terms of
the others at the end of the last alternative. -/
theorem compile_first (hsets : p.WithoutSets) (hothers : ∀ s ∈ p.others, s.Verbatim)
    {regex : Regex UInt8 × Nat} (h : compile (bytes "^" ++
      (p.first.text ++ slashed (p.others.map Segment.regexText))) = some regex) :
    ∃ ts st, lex (bytes "^" ++ p.first.text) = some ts ∧ ts.foldlM parseToken {} = some st ∧
      regex.1 = (st.pushAll (allTerms st.groups p.others) (allGroups p.others)).frame.regex := by
  have hcaret : 91 ∉ bytes "^" ∧ 92 ∉ bytes "^" := by decide
  have hset : 91 ∉ bytes "^" ++ p.first.text :=
    fun hmem => (List.mem_append.mp hmem).elim hcaret.1 hsets.first.1
  have hescape : 92 ∉ bytes "^" ++ p.first.text :=
    fun hmem => (List.mem_append.mp hmem).elim hcaret.2 hsets.first.2
  rw [← List.append_assoc, compile, lex_first hset hescape hothers] at h
  obtain ⟨_, hlex, hparse⟩ := Option.bind_eq_some_iff.mp h
  obtain ⟨ts, hts, rfl⟩ := Option.map_eq_some_iff.mp hlex
  obtain ⟨st', hst', hregex⟩ := Option.bind_eq_some_iff.mp hparse
  rw [List.foldlM_append] at hst'
  obtain ⟨st, hst, hst'⟩ := Option.bind_eq_some_iff.mp hst'
  rw [parse_segments] at hst'
  obtain rfl := Option.some.inj hst'
  split_ifs at hregex
  rw [← Option.some.inj hregex]
  exact ⟨ts, st, hts, hst, rfl⟩

/-- A slash in the place of a character that only means something else. -/
def slashFor (b : UInt8) : UInt8 := if b = 36 then 47 else b

theorem keeps_slashFor {b : UInt8} (hmeta : b ≠ 36) (hslash : b ≠ 47) : Keeps slashFor b := by
  intro c
  rw [slashFor]
  split_ifs with hc
  · exact iff_of_false hslash.symm fun heq => hmeta (heq ▸ hc)
  · rfl

theorem map_slashFor {text : Bytes} (h : 36 ∉ text) : text.map slashFor = text := by
  refine (List.map_congr_left fun b hb => ?_).trans (List.map_id text)
  exact if_neg fun heq : b = 36 => h (heq ▸ hb)

theorem not_mem_samples {segments : List Segment} (h : ∀ s ∈ segments, s.Verbatim) :
    36 ∉ slashed (segments.map Segment.sample) := by
  induction segments with
  | nil => exact List.not_mem_nil
  | cons s segments ih =>
    obtain ⟨hs, hsegments⟩ := List.forall_mem_cons.mp h
    rw [List.map_cons, slashed_cons, List.mem_cons, List.mem_append]
    rintro (heq | hmem | hmem)
    · exact absurd heq (by decide)
    · cases s with
      | literal text => exact hs 36 hmem (by decide)
      | param => exact absurd (List.mem_singleton.mp hmem) (by decide)
    · exact ih hsegments hmem

theorem regex_pushAll (st : ParseState) (terms : List (Regex UInt8)) (k : Nat) :
    (st.pushAll terms k).frame.last =
      Regex.seqAll (st.frame.terms.reverse.map Prod.fst ++ terms) := by
  simp [ParseState.pushAll, Frame.last, Function.comp_def]

theorem textInvariant_first (hsets : p.WithoutSets) :
    TextInvariant slashFor (bytes "^" ++ p.first.text) := by
  have hcaret : 91 ∉ bytes "^" ∧ 92 ∉ bytes "^" ∧ 47 ∉ bytes "^" := by decide
  have hkeeps {text : Bytes} (htext : 47 ∉ text) : ∀ b ∈ text, b ∉ metas → Keeps slashFor b :=
    fun b hb hmeta => keeps_slashFor (fun heq => hmeta (heq ▸ by decide))
      fun heq => htext (heq ▸ hb)
  have hfirst := textInvariant_append hsets.first.1 hsets.first.2 (hkeeps p.first.text_noSlash)
    (textInvariant_nil (π := slashFor))
  rw [List.append_nil] at hfirst
  exact textInvariant_append hcaret.1 hcaret.2.1 (hkeeps hcaret.2.2) hfirst

/-- With a dollar in front of the text or with a slash there, the first segment's part of the
expression is the same to both, and the other segments are only behind it. -/
theorem exists_mem_run_slash {st : ParseState} (hst : st.frame.Invariant slashFor) {n k : Nat}
    {segments : List Segment} {tail : Bytes} (htail : 36 ∉ tail) {y : Cursor UInt8}
    (hy : y ∈ (st.pushAll (allTerms n segments) k).frame.regex.run { rest := 36 :: tail })
    (hend : y.rest = []) :
    ∃ y' ∈ (st.pushAll (allTerms n segments) k).frame.regex.run { rest := 47 :: tail },
      y'.rest = [] := by
  have hstart : ({ rest := 47 :: tail } : Cursor UInt8) =
      Cursor.map slashFor { rest := 36 :: tail } := by
    simp only [Cursor.map, List.map_cons, map_slashFor htail]
    rfl
  have hmap {r : Regex UInt8} (hr : r.Invariant slashFor) {z : Cursor UInt8}
      (hz : z ∈ r.run { rest := 36 :: tail }) : z.map slashFor ∈ r.run { rest := 47 :: tail } := by
    rw [hstart, Regex.run_map hr]
    exact List.mem_map_of_mem hz
  simp only [mem_run_regex, regex_pushAll, Regex.mem_run_append] at hy ⊢
  rcases hy with ⟨r, hr, hy⟩ | ⟨z, hz, hy⟩
  · have hrest : (y.map slashFor).rest = [] := List.map_eq_nil_iff.mpr hend
    exact ⟨_, .inl ⟨r, hr, hmap (hst.1 r hr) hy⟩, hrest⟩
  · obtain ⟨pieces, params, hpieces, hslashes, htake, -⟩ := mem_run_allTerms.mp ⟨hy, hend⟩
    have hterms : (Regex.seqAll (st.frame.terms.reverse.map Prod.fst)).Invariant slashFor :=
      hst.last
    have hrest : (z.map slashFor).rest = slashed pieces := by
      rcases List.suffix_cons_iff.mp (Regex.rest_suffix_of_mem_run hz) with heq | hsuffix
      · rw [hpieces] at heq
        cases pieces with
        | nil => exact absurd heq.symm (List.cons_ne_nil _ _)
        | cons piece pieces => exact absurd (List.cons.inj heq).1 (by decide)
      · rw [← hpieces]
        exact map_slashFor fun hmem => htail (hsuffix.subset hmem)
    obtain ⟨hy', hend'⟩ := mem_run_allTerms.mpr ⟨pieces, params, hrest, hslashes, htake, rfl⟩
    exact ⟨_, .inr ⟨_, hmap hterms hz, hy'⟩, hend'⟩

theorem isLiteral_of_matchesBySegment (hsets : p.WithoutSets) (h : p.MatchesBySegment) :
    p.first.IsLiteral := by
  by_contra hparam
  obtain ⟨-, hothers⟩ := List.forall_mem_cons.mp (verbatim_of_matchesBySegment hsets h)
  obtain ⟨regex, hregex, hmatches⟩ := exists_compile h
  obtain ⟨ts, st, hts, hst, hfirst⟩ := compile_first hsets hothers hregex
  have hinv := foldlM_invariant parseState_invariant (lexFrom_invariant
    (keeps_slashFor (by decide) (by decide)) (keeps_slashFor (by decide) (by decide))
    (textInvariant_first hsets) hts) hst
  have hpieces : ∀ q ∈ p.others.map Segment.sample, 47 ∉ q :=
    List.forall_mem_map.mpr fun s _ => s.sample_noSlash
  have htaken : (takeAll p.others (p.others.map Segment.sample)).isSome :=
    (isSome_takeAll _ _).mpr fun s _ => s.isSome_take_sample
  have htail := not_mem_samples hothers
  -- the dollar is a first piece that the parameter takes, and nothing is not
  have hdollar := hmatches ([36] ++ slashed (p.others.map Segment.sample))
  have hslash := hmatches ([] ++ slashed ([] :: p.others.map Segment.sample))
  rw [params_slashed (by decide) hpieces, Segment.take_of_not_isLiteral hparam,
    if_neg (List.cons_ne_nil _ _), Option.bind_some, Option.isSome_map, htaken, regexMatch,
    Option.isSome_map, Regex.isSome_fullMatch] at hdollar
  rw [params_slashed List.not_mem_nil (List.forall_mem_cons.mpr ⟨List.not_mem_nil, hpieces⟩),
    Segment.take_of_not_isLiteral hparam, if_pos rfl] at hslash
  obtain ⟨y, hy, hend⟩ := hdollar
  rw [hfirst] at hy
  have hmatch : (regexMatch regex (47 :: slashed (p.others.map Segment.sample))).isSome := by
    rw [regexMatch, Option.isSome_map, Regex.isSome_fullMatch, hfirst]
    exact exists_mem_run_slash hinv.1 htail hy hend
  exact Bool.noConfusion (hmatch.symm.trans hslash)

/-- **Dynamic routes match segment by segment** when every literal means itself and no parameter
is in front of the first slash. A pattern without backslashes and brackets matches so in no other
case. -/
theorem matchesBySegment_iff (p : RoutePattern) :
    (p.Plain → p.MatchesBySegment) ∧ (p.WithoutSets → (p.MatchesBySegment ↔ p.Plain)) :=
  ⟨matchesBySegment_of_plain, fun hsets => ⟨fun h => ⟨verbatim_of_matchesBySegment hsets h,
    isLiteral_of_matchesBySegment hsets h⟩, matchesBySegment_of_plain⟩⟩

/-- `/post/:id` -/
def post : RoutePattern :=
  ⟨.literal [] (by decide) (by decide), [.literal (bytes "post") (by decide) (by decide),
    .param (bytes "id") (by decide) (by decide)]⟩

theorem matchesBySegment_post : post.Plain ∧ post.WithoutSets ∧ post.MatchesBySegment ∧
    (post.MatchesBySegment ↔ post.Plain) := by
  have hverbatim : ∀ b ∈ bytes "post", b ∉ metas := by
    intro b hb hmeta
    have hdisjoint : (bytes "post").all (fun b => b ∉ metas) = true := by decide
    exact absurd hmeta (by simpa using List.all_eq_true.mp hdisjoint b hb)
  have hplain : post.Plain := by
    refine ⟨fun s hs => ?_, trivial⟩
    simp only [post, List.mem_cons, List.not_mem_nil, or_false] at hs
    rcases hs with rfl | rfl | rfl
    · exact fun b hb => absurd hb List.not_mem_nil
    · exact hverbatim
    · trivial
  have hsets : post.WithoutSets := by
    refine ⟨⟨List.not_mem_nil, List.not_mem_nil⟩, fun s hs => ?_⟩
    simp only [post, List.mem_cons, List.not_mem_nil, or_false] at hs
    rcases hs with rfl | rfl
    · exact ⟨by decide, by decide⟩
    · trivial
  exact ⟨hplain, hsets, (matchesBySegment_iff post).1 hplain, (matchesBySegment_iff post).2 hsets⟩

/-- `/a.b` -/
def dotted : RoutePattern :=
  ⟨.literal [] (by decide) (by decide), [.literal (bytes "a.b") (by decide) (by decide)]⟩

/-- The route `/a.b` takes the path `/axb`. -/
theorem dot_matches_other : ¬ ∀ p : RoutePattern, p.MatchesBySegment := by
  intro h
  have hmatch : (Router.convertToRegex dotted.path).bind (fun pattern => pattern (bytes "/axb")) =
      some [] := by rfl
  obtain ⟨pattern, hpattern, -⟩ := h dotted
  have hsome := isSome_params hpattern (h dotted) (bytes "/axb")
  rw [hpattern, Option.bind_some] at hmatch
  rw [hmatch] at hsome
  exact absurd hsome (by decide)

end RoutePattern

end Workplace.Http
