import Workplace.Http.RequestLine

/-! The grammar of the request line, and the pairs of its query. The source goes through the
query by index, with the piece after the last `&` apart; that gives the pieces of a split. -/

namespace Workplace.Http
open HttpContext

/-! ## The loop of `setQueryPathParameters` -/

namespace HttpRequest

/-- `argStr.find('&', prev)`. -/
def findAmp (argStr : Bytes) (prev : Nat) : Option Nat :=
  (cut 38 (argStr.drop prev)).map fun p => prev + p.1.length

theorem findAmp_eq_some {argStr : Bytes} {prev pos : Nat} (h : findAmp argStr prev = some pos) :
    ∃ pair, 38 ∉ pair ∧ pos = prev + pair.length ∧
      argStr.drop prev = pair ++ 38 :: argStr.drop (pos + 1) := by
  obtain ⟨⟨pair, rest⟩, hcut, rfl⟩ := Option.map_eq_some_iff.mp h
  obtain ⟨hpair, hdrop⟩ := cut_eq_some.mp hcut
  refine ⟨pair, hpair, rfl, ?_⟩
  have hrest : argStr.drop (prev + pair.length + 1) = rest := by
    rw [Nat.add_assoc, ← List.drop_drop, hdrop, List.drop_append]
    simp
  rw [hrest, hdrop]

/-- From `prev` on: a round for each `&`, and the last piece. -/
def queryLoop (argStr : Bytes) (prev : Nat) (params : StrMap) : StrMap :=
  match _hpos : findAmp argStr prev with
  | some pos =>
    queryLoop argStr (pos + 1) (addPair params ((argStr.drop prev).take (pos - prev)))
  | none => addPair params (argStr.drop prev)
termination_by argStr.length - prev
decreasing_by
  obtain ⟨pair, -, rfl, hdrop⟩ := findAmp_eq_some ‹findAmp argStr prev = some pos›
  have hlen := congrArg List.length hdrop
  simp only [List.length_drop, List.length_append, List.length_cons] at hlen
  omega

theorem queryLoop_eq (argStr : Bytes) (prev : Nat) (params : StrMap) :
    queryLoop argStr prev params =
      ((argStr.drop prev).splitOn 38).foldl addPair params := by
  induction prev, params using queryLoop.induct argStr with
  | case1 prev params pos h ih =>
    obtain ⟨pair, hpair, rfl, hdrop⟩ := findAmp_eq_some h
    rw [queryLoop, h]
    dsimp only
    rw [ih, hdrop, List.splitOn_append_cons_self_of_not_mem hpair, List.foldl_cons,
      Nat.add_sub_cancel_left, List.take_left]
  | case2 prev params h =>
    have hnone : 38 ∉ argStr.drop prev := cut_eq_none.mp (Option.map_eq_none_iff.mp h)
    rw [queryLoop, h, List.splitOn_eq_singleton hnone]
    rfl

/-- The loop from the beginning of the arguments. -/
theorem setQueryPathParameters_eq_loop (req : HttpRequest) (args : Bytes) :
    req.setQueryPathParameters args = if args = [] then req
      else { req with queryParameters_ := queryLoop args 0 req.queryParameters_ } := by
  rw [queryLoop_eq, List.drop_zero]
  rfl

end HttpRequest

/-! ## The request line -/

def methodNames : List (Bytes × Method) :=
  [(bytes "GET", .kGet), (bytes "POST", .kPost), (bytes "HEAD", .kHead), (bytes "PUT", .kPut),
    (bytes "DELETE", .kDelete)]

def httpVersions : List Bytes := [bytes "HTTP/1.0", bytes "HTTP/1.1"]

theorem http11_mem : bytes "HTTP/1.1" ∈ httpVersions := by decide

/-- The key before the first `=` and the value behind it. -/
def splitPair (piece : Bytes) : Option (Bytes × Bytes) :=
  if 61 ∈ piece then some (piece.takeWhile (· ≠ 61), (piece.dropWhile (· ≠ 61)).tail) else none

/-- The pairs of a query, a later one over an earlier one with the same key. -/
def queryOf (args : Bytes) : StrMap :=
  ((args.splitOn 38).filterMap splitPair).foldl (fun params p => params.insert p.1 p.2) ∅

/-- The request of an accepted line: the path goes up to the first `?`. -/
def lineRequest (method : Method) (target version : Bytes) : HttpRequest where
  method_ := method
  version_ := version
  path_ := target.takeWhile (· ≠ 63)
  queryParameters_ := queryOf (target.dropWhile (· ≠ 63)).tail

theorem cut_eq_takeWhile (c : UInt8) (bs : Bytes) : cut c bs =
    if c ∈ bs then some (bs.takeWhile (· ≠ c), (bs.dropWhile (· ≠ c)).tail) else none := by
  split_ifs with h
  · obtain ⟨x, y, rfl⟩ := List.append_of_mem h
    rcases hcut : cut c (x ++ c :: y) with _ | ⟨x', y'⟩
    · exact absurd h (cut_eq_none.mp hcut)
    · obtain ⟨hx, heq⟩ := cut_eq_some.mp hcut
      have hall : ∀ b ∈ x', (decide (b ≠ c)) = true := fun b hb =>
        decide_eq_true fun hbc => hx (hbc ▸ hb)
      rw [heq, List.takeWhile_append_of_pos hall, List.dropWhile_append_of_pos hall]
      simp
  · exact cut_eq_none.mpr h

theorem foldl_addPair (pieces : List Bytes) (params : StrMap) :
    pieces.foldl HttpRequest.addPair params =
      (pieces.filterMap splitPair).foldl (fun params p => params.insert p.1 p.2) params := by
  rw [List.foldl_filterMap]
  congr 1
  funext params piece
  rw [HttpRequest.addPair, cut_eq_takeWhile, splitPair]
  split_ifs <;> rfl

theorem mem_methodNames {name : Bytes} {method : Method} :
    (name, method) ∈ methodNames ↔ HttpRequest.methodOf name = method ∧ method ≠ .kInvalid := by
  have hall : ∀ p ∈ methodNames, HttpRequest.methodOf p.1 = p.2 ∧ p.2 ≠ .kInvalid := by decide
  refine ⟨fun h => hall _ h, ?_⟩
  rintro ⟨rfl, hm⟩
  unfold HttpRequest.methodOf at hm ⊢
  split_ifs at hm ⊢ with h1 h2 h3 h4 h5
  · subst h1; decide
  · subst h2; decide
  · subst h3; decide
  · subst h4; decide
  · subst h5; decide
  · exact absurd rfl hm

theorem versionOf_eq_some {version v : Bytes} :
    versionOf version = some v ↔ version = v ∧ v ∈ httpVersions := by
  have hall : ∀ v ∈ httpVersions, versionOf v = some v := by decide
  constructor
  · intro h
    unfold versionOf at h
    split_ifs at h with hprefix hone hzero
    · obtain rfl := Option.some.inj h
      refine ⟨?_, by decide⟩
      rw [← List.dropLast_append_getLast? 49 hone, List.dropLast_eq_take, hprefix.1, hprefix.2]
      rfl
    · obtain rfl := Option.some.inj h
      refine ⟨?_, by decide⟩
      rw [← List.dropLast_append_getLast? 48 hzero, List.dropLast_eq_take, hprefix.1, hprefix.2]
      rfl
  · rintro ⟨rfl, h⟩
    exact hall version h

theorem setTarget_lineRequest (method : Method) (target version : Bytes) :
    (setTarget { method_ := method } target).setVersion version =
      lineRequest method target version := by
  unfold setTarget lineRequest
  rw [cut_eq_takeWhile]
  split_ifs with h
  · dsimp only
    unfold HttpRequest.setQueryPathParameters
    split_ifs with hargs
    · rw [hargs]
      rfl
    · rw [foldl_addPair]
      rfl
  · have hall : ∀ b ∈ target, (decide (b ≠ 63)) = true := fun b hb =>
      decide_eq_true fun hbq => h (hbq ▸ hb)
    rw [List.takeWhile_eq_self_iff.mpr hall, List.dropWhile_eq_nil_iff.mpr hall]
    rfl

/-- **The grammar of the request line**, with the request that an accepted line leaves. -/
theorem requestLine_grammar :
    (∀ line req, processRequestLine {} line = some (true, req) ↔
      ∃ name method target version, line = name ++ 32 :: (target ++ 32 :: version) ∧
        (name, method) ∈ methodNames ∧ 32 ∉ target ∧ version ∈ httpVersions ∧
          req = lineRequest method target version) ∧
    ∀ (req : HttpRequest) (args : Bytes), req.setQueryPathParameters args =
      if args = [] then req
      else { req with queryParameters_ := HttpRequest.queryLoop args 0 req.queryParameters_ } := by
  refine ⟨fun line req => ⟨fun h => ?_, ?_⟩, HttpRequest.setQueryPathParameters_eq_loop⟩
  · cases h ▸ processRequestLine_read {} line with
    | @accepted name after target version v hl hr hm ht hv =>
      obtain ⟨-, hline⟩ := cut_eq_some.mp hl
      obtain ⟨htarget, hafter⟩ := cut_eq_some.mp ht
      obtain ⟨rfl, hversion⟩ := versionOf_eq_some.mp hv
      exact ⟨name, _, target, version, hafter ▸ hline, mem_methodNames.mpr ⟨rfl, hm⟩, htarget,
        hversion, setTarget_lineRequest _ _ _⟩
  · rintro ⟨name, method, target, version, rfl, hname, htarget, hversion, rfl⟩
    have hspace : ∀ p ∈ methodNames, 32 ∉ p.1 := by decide
    obtain ⟨rfl, hm⟩ := mem_methodNames.mp hname
    unfold processRequestLine
    rw [cut_append (hspace _ hname)]
    simp only [HttpRequest.setMethod, if_true, ne_eq, hm, not_false_eq_true, decide_true,
      cut_append htarget, versionOf_eq_some.mpr ⟨rfl, hversion⟩, setTarget_lineRequest]

end Workplace.Http
