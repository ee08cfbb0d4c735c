import Workplace.Http.Chunking

/-! Several requests on one connection. `reset` swaps the request with a fresh one, but
`swap` leaves `contentLength_` and `content_` where they are. What the next request
makes of the leftover depends on whether it carries a body itself. -/

namespace Workplace.Http
namespace HttpContext
open HttpRequestParseState Workplace.Lib

/-- The bytes that follow the first blank line. -/
def bodyOf : Bytes → Bytes
  | [] => []
  | b :: bs => if (b :: bs).take 4 = [CR, LF, CR, LF] then bs.drop 3 else bodyOf bs

/-- The same for bytes that follow a CR LF: the blank line may come at once. -/
def bodyAfterLine (buf : Bytes) : Bytes :=
  if findCRLF buf = some 0 then buf.drop 2 else bodyOf buf

theorem findCRLF_eq_zero {buf : Bytes} : findCRLF buf = some 0 ↔ buf.take 2 = [CR, LF] := by
  cases buf with
  | nil => simp [findCRLF]
  | cons b bs =>
    have hhead : (b :: bs).take 2 = [CR, LF] ↔ b = CR ∧ bs.head? = some LF := by
      cases bs <;> simp
    rw [findCRLF, hhead]
    split_ifs with h
    · simp [h]
    · simp [h, Option.map_eq_some_iff]

theorem bodyOf_line {buf : Bytes} {i : Nat} (h : findCRLF buf = some i) :
    bodyOf buf = bodyAfterLine (buf.drop (i + 2)) := by
  induction buf generalizing i with
  | nil => simp [findCRLF] at h
  | cons b bs ih =>
    rw [findCRLF] at h
    split_ifs at h with hb
    · obtain rfl := Option.some.inj h
      obtain ⟨rfl, hl⟩ := hb
      rcases bs with _ | ⟨c, cs⟩
      · simp at hl
      obtain rfl : c = LF := by simpa using hl
      have h4 : (CR :: LF :: cs).take 4 = [CR, LF, CR, LF] ↔ findCRLF cs = some 0 := by
        rw [findCRLF_eq_zero]
        simp
      rw [bodyOf]
      by_cases hc : findCRLF cs = some 0
      · rw [if_pos (h4.mpr hc), bodyAfterLine]
        simp [hc]
      · rw [if_neg (mt h4.mp hc), bodyAfterLine]
        have hlf : ¬ LF = CR := by decide
        simp [hc, bodyOf, hlf]
    · obtain ⟨j, hj, rfl⟩ := Option.map_eq_some_iff.mp h
      have h4 : ¬ (b :: bs).take 4 = [CR, LF, CR, LF] := by
        intro h4
        apply hb
        rcases bs with _ | ⟨c, cs⟩
        · simp at h4
        · simp only [List.take_succ_cons, List.cons.injEq] at h4
          simp [h4.1, h4.2.1]
      rw [bodyOf, if_neg h4, ih hj]
      rfl

/-! ## What is left over -/

/-- A fresh context but for the two members that `swap` forgets. -/
def stale (length : Nat) (body : Bytes) : HttpContext :=
  { request_ := { contentLength_ := length, content_ := body } }

theorem stale_eq_fresh {n : Nat} {b : Bytes} : stale n b = {} ↔ n = 0 ∧ b = [] := by
  simp [stale]

def withBody (n : Nat) (b : Bytes) (ctx : HttpContext) : HttpContext :=
  { ctx with request_ := ctx.request_.withBody n b }

/-- The finished request as it comes out when the parser started from leftovers: a
request with a body overwrites both members, `Content-Length: 0` only the length. -/
def leak (n : Nat) (b : Bytes) (req : HttpRequest) : HttpRequest :=
  if req.content_ ≠ [] then req
  else if req.method_ = .kPost ∨ req.method_ = .kPut then req.withBody 0 b
  else req.withBody n b

theorem runLoop_expectBody {ctx c : HttpContext} {buf r : Bytes} (hs : ctx.state_ = kExpectBody)
    (h : parser.runLoop ctx buf = (some .complete, c, r)) :
    c.request_.content_ ++ r = buf ∧ c.request_.content_.length = ctx.request_.contentLength_ ∧
      c.request_.contentLength_ = ctx.request_.contentLength_ ∧
      ∀ b, parser.runLoop (ctx.withBody ctx.request_.contentLength_ b) buf =
        (some .complete, c, r) := by
  by_cases hb : ctx.request_.contentLength_ ≤ buf.length
  · have ht := turn_of_complete (by simp [hs]) (Round.body (t := 0) hs hb).eq rfl
    rw [parser.runLoop_halt ht] at h
    simp only [Prod.mk.injEq, true_and] at h
    obtain ⟨rfl, rfl⟩ := h
    refine ⟨by simp [HttpRequest.setBody], by simp [HttpRequest.setBody, hb], rfl, fun b => ?_⟩
    have hr : Round 0 (ctx.withBody ctx.request_.contentLength_ b) buf _ := .body hs hb
    exact parser.runLoop_halt (turn_of_complete (by simp [withBody, hs]) hr.eq rfl)
  · have hw := (Round.waitBody (t := 0) hs (Nat.lt_of_not_le hb)).eq
    have ht : turn ctx buf = .starve := by simp [turn, hs, hw]
    simp [parser.runLoop_starve ht] at h

/-- What a finished run from the header lines on says about the body it read, and about
the run from the same point with leftovers. -/
def HeadersRun (ctx : HttpContext) (buf : Bytes) : Prop :=
  ctx.state_ = kExpectHeaders → ctx.request_.contentLength_ = 0 → ctx.request_.content_ = [] →
    ∀ c r, parser.runLoop ctx buf = (some .complete, c, r) →
      c.request_.content_ ++ r = bodyAfterLine buf ∧
      c.request_.contentLength_ = c.request_.content_.length ∧
      ∀ n b, parser.runLoop (ctx.withBody n b) buf =
        (some .complete, { c with request_ := leak n b c.request_ }, r)

theorem headersRun (ctx : HttpContext) (buf : Bytes) : HeadersRun ctx buf := by
  induction ctx, buf using parser.runLoop_induction with
  | starve s b ht =>
    intro _ _ _ c r h
    simp [parser.runLoop_starve ht] at h
  | halt s buf o s₁ r₁ ht =>
    intro hs hl hc c r h
    rw [parser.runLoop_halt ht] at h
    simp only [Prod.mk.injEq, Option.some.injEq] at h
    obtain ⟨rfl, rfl, rfl⟩ := h
    have hg : s.state_ ≠ kGotAll := by simp [hs]
    have hp := turn_halt hg ht
    have hstate := turn_halt_gotAll ht
    cases hp ▸ parseStep_round 0 s buf with
    | waitLine => simp [hs] at hstate
    | waitBody hs' => simp [hs] at hs'
    | body hs' => simp [hs] at hs'
    | bodyEmpty _ hf hm hh hn hz =>
      refine ⟨by simp [HttpRequest.setContentLength, hc, bodyAfterLine, hf],
        by simp [HttpRequest.setContentLength, hc], fun n b => ?_⟩
      refine parser.runLoop_halt (turn_of_complete (by simp [withBody, hs]) ?_ rfl)
      have hr : Round 0 (s.withBody n b) buf _ := .bodyEmpty hs hf hm hh hn hz
      simpa [leak, HttpRequest.setContentLength, HttpRequest.withBody, withBody, hc, hm] using hr.eq
    | noBody _ hf hm =>
      refine ⟨by simp [hc, bodyAfterLine, hf], by simp [hc, hl], fun n b => ?_⟩
      refine parser.runLoop_halt (turn_of_complete (by simp [withBody, hs]) ?_ rfl)
      have hr : Round 0 (s.withBody n b) buf _ := .noBody hs hf hm
      simpa [leak, HttpRequest.withBody, withBody, hc, hm] using hr.eq
  | more s buf s₁ r₁ ht ih =>
    intro hs hl hc c r h
    rw [parser.runLoop_more ht] at h
    have hg : s.state_ ≠ kGotAll := by simp [hs]
    cases (turn_more ht).2 ▸ parseStep_round 0 s buf with
    | lineAccepted hs' => simp [hs] at hs'
    | spin hs' => exact absurd hs' hg
    | @header i field value _ hf hcut =>
      have hi : findCRLF buf ≠ some 0 := by
        intro h0
        obtain rfl : i = 0 := by simpa [h0] using hf.symm
        simp at hcut
      obtain ⟨hbody, hlen, hleft⟩ := ih rfl hl hc c r h
      have hskip : bodyAfterLine buf = bodyAfterLine (buf.drop (i + 2)) := by
        rw [bodyAfterLine, if_neg hi, bodyOf_line hf]
      refine ⟨hbody.trans hskip.symm, hlen, fun n b => ?_⟩
      have hr : Round 0 (s.withBody n b) buf _ := .header hs hf hcut
      rw [parser.runLoop_more (turn_of_again (by simp [withBody, hs]) hr.eq)]
      exact hleft n b
    | @bodyFollows k _ hf hm hh hn hpos =>
      obtain ⟨hbody, hlen, hlen', hleft⟩ := runLoop_expectBody rfl h
      have hne : c.request_.content_ ≠ [] := by
        intro h0
        simp only [h0, List.length_nil, HttpRequest.setContentLength] at hlen
        omega
      refine ⟨by rw [hbody, bodyAfterLine, if_pos hf], by rw [hlen, hlen'], fun n b => ?_⟩
      have hr : Round 0 (s.withBody n b) buf _ := .bodyFollows hs hf hm hh hn hpos
      rw [parser.runLoop_more (turn_of_again (by simp [withBody, hs]) hr.eq)]
      rw [leak, if_pos hne]
      exact hleft b

theorem requestRun {s r : Bytes} {c : HttpContext}
    (h : parser.runLoop {} s = (some .complete, c, r)) :
    c.request_.content_ ++ r = bodyOf s ∧
      c.request_.contentLength_ = c.request_.content_.length ∧
      ∀ n b, parser.runLoop (stale n b) s =
        (some .complete, { c with request_ := leak n b c.request_ }, r) := by
  have hg : ({} : HttpContext).state_ ≠ kGotAll := by decide
  have hround := parseStep_round 0 {} s
  rcases ht : turn {} s with _ | ⟨c₁, r₁⟩ | ⟨v, c₁, r₁⟩
  · simp [parser.runLoop_starve (s := {}) ht] at h
  · rw [parser.runLoop_more (s := {}) ht] at h
    cases (turn_more ht).2 ▸ hround with
    | header hs => simp at hs
    | bodyFollows hs => simp at hs
    | spin hs => simp at hs
    | @lineAccepted i req _ hf hp =>
      have hleft (n : Nat) (b : Bytes) := processRequestLine_withBody n b {} (s.take i)
      simp only [hp, Option.map_some] at hleft
      -- nothing is left over in the request that the line of a fresh one produced
      have hreq : req = req.withBody 0 [] := by
        have h0 := hleft 0 []
        rw [show ({} : HttpRequest).withBody 0 [] = {} from rfl] at h0
        simpa [hp] using h0
      obtain ⟨hbody, hlen, hrest⟩ :=
        headersRun _ _ rfl (by rw [hreq]; rfl) (by rw [hreq]; rfl) c r h
      refine ⟨by rw [hbody, bodyOf_line hf], hlen, fun n b => ?_⟩
      have hr : Round 0 (stale n b) s _ := .lineAccepted rfl hf (hleft n b)
      rw [parser.runLoop_more (turn_of_again (by simp [stale]) hr.eq)]
      exact hrest n b
  · rw [parser.runLoop_halt (s := {}) ht] at h
    simp only [Prod.mk.injEq, Option.some.injEq] at h
    obtain ⟨rfl, rfl, rfl⟩ := h
    have hstate := turn_halt_gotAll ht
    cases turn_halt hg ht ▸ hround with
    | waitLine => simp at hstate
    | waitBody hs => simp at hs
    | body hs => simp at hs
    | bodyEmpty hs => simp at hs
    | noBody hs => simp at hs

/-! ## Requests one after the other -/

/-- A request, in chunks, that a fresh context takes to `kGotAll` and to its last byte. -/
def WellFormed (cs : List (Bytes × Timestamp)) : Prop :=
  (feed {} [] cs).outcome = .complete ∧ (feed {} [] cs).unread = []

instance (cs : List (Bytes × Timestamp)) : Decidable (WellFormed cs) :=
  inferInstanceAs (Decidable (_ ∧ _))

def CarriesBody (cs : List (Bytes × Timestamp)) : Prop := bodyOf (cs.map Prod.fst).flatten ≠ []

instance (cs : List (Bytes × Timestamp)) : Decidable (CarriesBody cs) :=
  inferInstanceAs (Decidable (_ ≠ _))

/-- The context of a connection on which these requests were parsed, dispatched and reset. -/
def afterRequests (ctx : HttpContext) (hist : List (List (Bytes × Timestamp))) : HttpContext :=
  hist.foldl (fun ctx cs => (feed ctx [] cs).context.reset) ctx

theorem feed_stale_eq (n : Nat) (b : Bytes) (cs : List (Bytes × Timestamp)) :
    (feed (stale n b) [] cs).forgetTime =
      fedOf (parser.runLoop (stale n b) (cs.map Prod.fst).flatten) := by
  have hw : turn (stale n b).forgetTime [] = .starve := by
    simp [turn, parseStep, findCRLF, stale, forgetTime]
  exact feed_eq_runLoop hw cs

theorem WellFormed.run {cs : List (Bytes × Timestamp)} (h : WellFormed cs) :
    parser.runLoop {} (cs.map Prod.fst).flatten =
      (some .complete, (feed {} [] cs).context.forgetTime, []) := by
  have he : (feed {} [] cs).forgetTime = fedOf (parser.runLoop {} (cs.map Prod.fst).flatten) :=
    feed_stale_eq 0 [] cs
  obtain ⟨ho, hu⟩ := h
  have ho' : (fedOf (parser.runLoop {} (cs.map Prod.fst).flatten)).outcome = .complete := by
    rw [← he]
    exact ho
  have hc : (fedOf (parser.runLoop {} (cs.map Prod.fst).flatten)).context =
      (feed {} [] cs).context.forgetTime := by
    rw [← he]
    rfl
  have hu' : (fedOf (parser.runLoop {} (cs.map Prod.fst).flatten)).unread = [] := by
    rw [← he]
    exact hu
  rcases hr : parser.runLoop {} (cs.map Prod.fst).flatten with ⟨_ | _ | _ | _ | _, c, r⟩ <;>
    simp only [hr, fedOf, reduceCtorEq] at ho' hc hu'
  rw [hc, hu']

theorem WellFormed.feed_stale {cs : List (Bytes × Timestamp)} (h : WellFormed cs) (n : Nat)
    (b : Bytes) :
    (feed (stale n b) [] cs).outcome = .complete ∧
      (feed (stale n b) [] cs).context.request_.forgetTime =
        leak n b (feed {} [] cs).context.request_.forgetTime ∧
      (feed {} [] cs).context.request_.content_ = bodyOf (cs.map Prod.fst).flatten ∧
      (feed {} [] cs).context.request_.contentLength_ =
        (feed {} [] cs).context.request_.content_.length := by
  obtain ⟨hbody, hlen, hleft⟩ := requestRun h.run
  have he := feed_stale_eq n b cs
  rw [hleft n b, fedOf] at he
  have ho := congrArg Fed.outcome he
  have hc := congrArg (fun f => f.context.request_) he
  rw [List.append_nil] at hbody
  exact ⟨ho, hc, hbody, hlen⟩

theorem leak_content (n : Nat) (b : Bytes) (req : HttpRequest) :
    (leak n b req).content_ = if req.content_ = [] then b else req.content_ := by
  unfold leak
  split_ifs <;> simp_all [HttpRequest.withBody]

theorem leak_length {n : Nat} {b : Bytes} {req : HttpRequest} (hb : (leak n b req).content_ = [])
    (hn : b = [] → n = 0) : (leak n b req).contentLength_ = 0 := by
  rw [leak_content] at hb
  split_ifs at hb with hc
  · unfold leak
    rw [if_neg (by simp [hc])]
    split_ifs
    · rfl
    · exact hn hb
  · exact absurd hb hc

theorem leak_eq_self {n : Nat} {b : Bytes} {req : HttpRequest}
    (hlen : req.contentLength_ = req.content_.length) (hn : b = [] → n = 0) :
    leak n b req = req ↔ req.content_ ≠ [] ∨ b = [] := by
  constructor
  · intro h
    by_contra hcon
    push Not at hcon
    have := leak_content n b req
    rw [h, if_pos hcon.1, hcon.1] at this
    exact hcon.2 this.symm
  · rintro (h | rfl)
    · rw [leak, if_pos h]
    · obtain rfl := hn rfl
      by_cases hc : req.content_ = []
      · have hself : req.withBody 0 [] = req := by
          rw [hc, List.length_nil] at hlen
          rw [HttpRequest.withBody, ← hlen, ← hc]
        simp [leak, hself]
      · rw [leak, if_pos hc]

/-- The leftovers of a whole history: a body stays until another request brings one. -/
theorem afterRequests_stale {hist : List (List (Bytes × Timestamp))}
    (hh : ∀ q ∈ hist, WellFormed q) {n : Nat} {b : Bytes} (hn : b = [] → n = 0) :
    ∃ n' b', afterRequests (stale n b) hist = stale n' b' ∧ (b' = [] → n' = 0) ∧
      (b' = [] ↔ b = [] ∧ ∀ q ∈ hist, ¬ CarriesBody q) := by
  induction hist generalizing n b with
  | nil => exact ⟨n, b, rfl, hn, by simp⟩
  | cons q hist ih =>
    obtain ⟨-, hreq, hbody, -⟩ := (hh q (by simp)).feed_stale n b
    have hc := congrArg HttpRequest.content_ hreq
    have hl := congrArg HttpRequest.contentLength_ hreq
    set req := (feed (stale n b) [] q).context.request_ with hdef
    change req.content_ = _ at hc
    change req.contentLength_ = _ at hl
    have hn' : req.content_ = [] → req.contentLength_ = 0 := fun h =>
      hl.trans (leak_length (hc ▸ h) hn)
    obtain ⟨n', b', he, hz, hiff⟩ := ih (fun q' hq => hh q' (by simp [hq])) hn'
    refine ⟨n', b', he, hz, hiff.trans ?_⟩
    rw [leak_content] at hc
    have hb : (feed {} [] q).context.request_.forgetTime.content_ = [] ↔ ¬ CarriesBody q := by
      rw [CarriesBody, not_not, ← hbody]
      rfl
    have hcons : req.content_ = [] ↔ b = [] ∧ ¬ CarriesBody q := by
      rw [hc, ← hb]
      split_ifs with h <;> simp [h]
    rw [hcons]
    simp only [List.mem_cons, forall_eq_or_imp, and_assoc]

/-- **Leaks between requests.** After any requests on a connection, the next one is handed
over as a fresh context would have parsed it exactly when it carries a body or none before
it did; and `reset` has restored the fresh context exactly when none did. -/
theorem keepAlive_agrees_iff (hist : List (List (Bytes × Timestamp)))
    (r : List (Bytes × Timestamp)) (hh : ∀ q ∈ hist, WellFormed q) (hr : WellFormed r) :
    (feed (afterRequests {} hist) [] r).outcome = .complete ∧
      ((feed (afterRequests {} hist) [] r).context.request_.forgetTime =
          (feed {} [] r).context.request_.forgetTime ↔
        CarriesBody r ∨ ∀ q ∈ hist, ¬ CarriesBody q) ∧
      (afterRequests {} hist = {} ↔ ∀ q ∈ hist, ¬ CarriesBody q) := by
  obtain ⟨n, b, he, hn, hb⟩ := afterRequests_stale (n := 0) (b := []) hh (fun _ => rfl)
  rw [show stale 0 [] = {} from rfl] at he
  simp only [true_and] at hb
  obtain ⟨ho, hreq, hbody, hlen⟩ := hr.feed_stale n b
  rw [he]
  refine ⟨ho, ?_, ?_⟩
  · have hleak : leak n b (feed {} [] r).context.request_.forgetTime = _ ↔ _ :=
      leak_eq_self hlen hn
    rw [hreq, hleak, CarriesBody, ← hbody, hb]
    rfl
  · rw [stale_eq_fresh, ← hb]
    exact ⟨And.right, fun h => ⟨hn h, h⟩⟩

/-- A posted body is still there for the GET that comes next. -/
theorem keepAlive_leaks_body :
    ¬ ∀ r₁ r₂ : List (Bytes × Timestamp), WellFormed r₁ → WellFormed r₂ →
      (feed (feed {} [] r₁).context.reset [] r₂).context.request_.forgetTime =
        (feed {} [] r₂).context.request_.forgetTime := by
  intro h
  have hleak := h [(bytes "POST /a HTTP/1.1\r\nContent-Length: 1\r\n\r\nx", 1)]
    [(bytes "GET / HTTP/1.1\r\n\r\n", 2)] (by decide) (by decide)
  revert hleak
  decide

/-- Two bodiless requests, then one with a body: no leak, and a fresh context before it. -/
theorem keepAlive_agrees_iff_bodiless :
    let get := [(bytes "GET / HTTP/1.1\r\n\r\n", 1)]
    let put := [(bytes "PUT /a HTTP/1.1\r\nContent-Length: 1\r\n\r\nx", 2)]
    WellFormed get ∧ WellFormed put ∧ afterRequests {} [get, get] = {} ∧
      (feed (afterRequests {} [get, get]) [] put).context.request_.forgetTime =
        (feed {} [] put).context.request_.forgetTime := by
  intro get put
  have hget : WellFormed get := by decide
  have hput : WellFormed put := by decide
  have hnone : ∀ q ∈ [get, get], ¬ CarriesBody q := by decide
  obtain ⟨-, hreq, hfresh⟩ := keepAlive_agrees_iff [get, get] put (by simp [hget]) hput
  exact ⟨hget, hput, hfresh.mpr hnone, hreq.mpr (.inr hnone)⟩

end HttpContext
end Workplace.Http
