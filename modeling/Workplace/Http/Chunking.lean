import Workplace.Http.RequestLine
import Workplace.Lib.Incremental

/-! The parser as an incremental loop. Every round but the one that waits for bytes is
decided by the bytes already in the buffer (`parseStep_append`), so the outcome of a
stream does not depend on how it was cut into chunks (`feed_eq_of_flatten_eq`). -/

namespace Workplace.Http
namespace HttpContext
open HttpRequestParseState Workplace.Lib

/-! ## Bytes that arrive later -/

def ParseResult.appendUnread (x : Bytes) : ParseResult → ParseResult
  | .ret ok ctx buf => .ret ok ctx (buf ++ x)
  | .throw e ctx buf => .throw e ctx (buf ++ x)
  | .abort => .abort

def LoopStep.appendUnread (x : Bytes) : LoopStep → LoopStep
  | .again ctx buf => .again ctx (buf ++ x)
  | .done r => .done (r.appendUnread x)

/-- A round waits, or it does the same with more bytes behind. -/
theorem parseStep_append (t : Timestamp) (ctx : HttpContext) (buf x : Bytes) :
    parseStep t ctx buf = .done (.ret true ctx buf) ∨
      parseStep t ctx (buf ++ x) = (parseStep t ctx buf).appendUnread x := by
  have hr := parseStep_round t ctx buf
  generalize parseStep t ctx buf = s at hr
  cases hr with
  | waitLine => exact .inl rfl
  | waitBody => exact .inl rfl
  | lineAssert hs hf hp =>
    exact .inr (Round.lineAssert hs (findCRLF_append x hf) (take_findCRLF_append x hf ▸ hp)).eq
  | lineAccepted hs hf hp =>
    right
    have := (Round.lineAccepted (t := t) hs (findCRLF_append x hf)
      (take_findCRLF_append x hf ▸ hp)).eq
    rwa [drop_findCRLF_append x hf] at this
  | lineRefused hs hf hp =>
    exact .inr (Round.lineRefused hs (findCRLF_append x hf) (take_findCRLF_append x hf ▸ hp)).eq
  | header hs hf hc =>
    right
    have := (Round.header (t := t) hs (findCRLF_append x hf) (take_findCRLF_append x hf ▸ hc)).eq
    rwa [drop_findCRLF_append x hf] at this
  | headerRefused hs hf hc hi =>
    right
    have := (Round.headerRefused (t := t) hs (findCRLF_append x hf)
      (take_findCRLF_append x hf ▸ hc) hi).eq
    rwa [drop_findCRLF_append x hf] at this
  | lengthMissing hs hf hm hl =>
    right
    have := (Round.lengthMissing (t := t) hs (findCRLF_append x hf) hm hl).eq
    rwa [drop_findCRLF_append x hf] at this
  | lengthThrows hs hf hm hl hn =>
    exact .inr (Round.lengthThrows hs (findCRLF_append x hf) hm hl hn).eq
  | bodyFollows hs hf hm hl hn hpos =>
    right
    have := (Round.bodyFollows (t := t) hs (findCRLF_append x hf) hm hl hn hpos).eq
    rwa [drop_findCRLF_append x hf] at this
  | bodyEmpty hs hf hm hl hn hz =>
    right
    have := (Round.bodyEmpty (t := t) hs (findCRLF_append x hf) hm hl hn hz).eq
    rwa [drop_findCRLF_append x hf] at this
  | noBody hs hf hm =>
    right
    have := (Round.noBody (t := t) hs (findCRLF_append x hf) hm).eq
    rwa [drop_findCRLF_append x hf] at this
  | body hs hb =>
    right
    have hb' : ctx.request_.contentLength_ ≤ (buf ++ x).length := by
      rw [List.length_append]
      omega
    have := (Round.body (t := t) hs hb').eq
    rwa [List.take_append_of_le_length hb, List.drop_append_of_le_length hb] at this
  | spin hs => exact .inr (Round.spin hs).eq

/-! ## Rounds that go on, rounds that return -/

theorem parseStep_again {t : Timestamp} {ctx ctx' : HttpContext} {buf r : Bytes}
    (hs : ctx.state_ ≠ kGotAll) (h : parseStep t ctx buf = .again ctx' r) :
    (ctx'.state_ = kExpectHeaders ∨ ctx'.state_ = kExpectBody) ∧
      ∃ i, findCRLF buf = some i ∧ r = buf.drop (i + 2) := by
  cases h ▸ parseStep_round t ctx buf with
  | lineAccepted _ hf _ => exact ⟨.inl rfl, _, hf, rfl⟩
  | header _ hf _ => exact ⟨.inl rfl, _, hf, rfl⟩
  | bodyFollows _ hf => exact ⟨.inr rfl, _, hf, rfl⟩
  | spin hg => exact absurd hg hs

theorem parseStep_again_length {t : Timestamp} {ctx ctx' : HttpContext} {buf r : Bytes}
    (hs : ctx.state_ ≠ kGotAll) (h : parseStep t ctx buf = .again ctx' r) :
    r.length < buf.length := by
  obtain ⟨-, i, hi, rfl⟩ := parseStep_again hs h
  have := findCRLF_bound hi
  simp only [List.length_drop]
  omega

theorem parseStep_again_state {t : Timestamp} {ctx ctx' : HttpContext} {buf r : Bytes}
    (hs : ctx.state_ ≠ kGotAll) (h : parseStep t ctx buf = .again ctx' r) :
    ctx'.state_ ≠ kGotAll := by
  rcases (parseStep_again hs h).1 with h | h <;> simp [h]

theorem parseStep_ret_true {t : Timestamp} {ctx ctx' : HttpContext} {buf r : Bytes}
    (h : parseStep t ctx buf = .done (.ret true ctx' r)) :
    ctx'.state_ = kGotAll ∨ ctx' = ctx ∧ r = buf := by
  cases h ▸ parseStep_round t ctx buf with
  | waitLine => exact .inr ⟨rfl, rfl⟩
  | waitBody => exact .inr ⟨rfl, rfl⟩
  | bodyEmpty => exact .inl rfl
  | noBody => exact .inl rfl
  | body => exact .inl rfl

/-! ## The assertion of `setMethod` -/

theorem parseStep_abort {t : Timestamp} {ctx : HttpContext} {buf : Bytes}
    (h : parseStep t ctx buf = .done .abort) :
    ctx.state_ = kExpectRequestLine ∧ ctx.request_.method_ ≠ .kInvalid := by
  cases h ▸ parseStep_round t ctx buf with
  | lineAssert hs _ hp => exact ⟨hs, (processRequestLine_eq_none.mp hp).2⟩

/-! ## The time of receipt -/

def forgetTime (ctx : HttpContext) : HttpContext :=
  { ctx with request_ := ctx.request_.forgetTime }

@[simp] theorem forgetTime_state (ctx : HttpContext) : ctx.forgetTime.state_ = ctx.state_ := rfl

def ParseResult.forgetTime : ParseResult → ParseResult
  | .ret ok ctx buf => .ret ok ctx.forgetTime buf
  | .throw e ctx buf => .throw e ctx.forgetTime buf
  | .abort => .abort

section

variable {r : ParseResult} {ok : Bool} {e : StdException} {ctx : HttpContext} {buf : Bytes}

theorem ParseResult.eq_ret_of_forgetTime (h : r.forgetTime = .ret ok ctx buf) :
    ∃ ctx', r = .ret ok ctx' buf ∧ ctx'.forgetTime = ctx := by
  cases r with
  | ret ok' ctx' buf' =>
    obtain ⟨rfl, hctx, rfl⟩ := ParseResult.ret.inj h
    exact ⟨ctx', rfl, hctx⟩
  | throw | abort => cases h

theorem ParseResult.eq_throw_of_forgetTime (h : r.forgetTime = .throw e ctx buf) :
    ∃ ctx', r = .throw e ctx' buf ∧ ctx'.forgetTime = ctx := by
  cases r with
  | throw e' ctx' buf' =>
    obtain ⟨rfl, hctx, rfl⟩ := ParseResult.throw.inj h
    exact ⟨ctx', rfl, hctx⟩
  | ret | abort => cases h

theorem ParseResult.eq_abort_of_forgetTime (h : r.forgetTime = .abort) : r = .abort := by
  cases r with
  | abort => rfl
  | ret | throw => cases h

end

def LoopStep.forgetTime : LoopStep → LoopStep
  | .again ctx buf => .again ctx.forgetTime buf
  | .done r => .done r.forgetTime

theorem Round.forgetTime {t : Timestamp} {ctx : HttpContext} {buf : Bytes} {s : LoopStep}
    (h : Round t ctx buf s) : Round 0 ctx.forgetTime buf s.forgetTime := by
  have hline := processRequestLine_forgetTime ctx.request_
  cases h with
  | waitLine hs hf => exact .waitLine hs hf
  | lineAssert hs hf hp => exact .lineAssert hs hf ((hline _).trans (by rw [hp]; rfl))
  | @lineAccepted i req hs hf hp =>
    have hp' : processRequestLine ctx.forgetTime.request_ (buf.take i) =
        some (true, req.forgetTime) := (hline _).trans (by rw [hp]; rfl)
    have hr : Round 0 ctx.forgetTime buf _ := .lineAccepted hs hf hp'
    exact hr
  | lineRefused hs hf hp => exact .lineRefused hs hf ((hline _).trans (by rw [hp]; rfl))
  | header hs hf hc => exact .header hs hf hc
  | headerRefused hs hf hc hi => exact .headerRefused hs hf hc hi
  | lengthMissing hs hf hm hl => exact .lengthMissing hs hf hm hl
  | lengthThrows hs hf hm hl hn => exact .lengthThrows hs hf hm hl hn
  | bodyFollows hs hf hm hl hn hpos => exact .bodyFollows hs hf hm hl hn hpos
  | bodyEmpty hs hf hm hl hn hz => exact .bodyEmpty hs hf hm hl hn hz
  | noBody hs hf hm => exact .noBody hs hf hm
  | waitBody hs hb => exact .waitBody hs hb
  | body hs hb => exact .body hs hb
  | spin hs => exact .spin hs

theorem parseStep_forgetTime (t : Timestamp) (ctx : HttpContext) (buf : Bytes) :
    parseStep 0 ctx.forgetTime buf = (parseStep t ctx buf).forgetTime :=
  (parseStep_round t ctx buf).forgetTime.eq

/-! ## Feeding chunks -/

/-- What a caller that feeds chunks can observe of the last call. -/
inductive Outcome where
  | waiting
  | rejected
  | exception (e : StdException)
  | complete
  | aborted
  | stuck
  deriving DecidableEq, Repr

structure Fed where
  outcome : Outcome
  context : HttpContext := {}
  unread : Bytes := []
  deriving DecidableEq

/-- Append a chunk, call `parseRequest`, and stop at the first call that returns false,
throws or leaves `kGotAll`. A process that an assertion killed, or that is caught in a
call that never returns (`stuck`), leaves no context to look at. -/
def feed (ctx : HttpContext) (buf : Bytes) : List (Bytes × Timestamp) → Fed
  | [] => { outcome := .waiting, context := ctx, unread := buf }
  | (c, t) :: cs =>
    let later := (cs.map Prod.fst).flatten
    match parseRequest ctx (buf ++ c) t with
    | none => { outcome := .stuck }
    | some .abort => { outcome := .aborted }
    | some (.throw e ctx' buf') =>
      { outcome := .exception e, context := ctx', unread := buf' ++ later }
    | some (.ret false ctx' buf') =>
      { outcome := .rejected, context := ctx', unread := buf' ++ later }
    | some (.ret true ctx' buf') =>
      if ctx'.gotAll then { outcome := .complete, context := ctx', unread := buf' ++ later }
      else feed ctx' buf' cs

def Fed.forgetTime (f : Fed) : Fed := { f with context := f.context.forgetTime }

inductive Verdict where
  | rejected
  | exception (e : StdException)
  | complete
  | aborted

/-- A round of the loop, with the clock at 0, as a turn of an incremental loop. -/
def turn (ctx : HttpContext) (buf : Bytes) : Turn HttpContext Verdict UInt8 :=
  if ctx.state_ = kGotAll then .halt .complete ctx buf
  else
    match parseStep 0 ctx buf with
    | .again ctx' buf' => .more ctx' buf'
    | .done (.ret true ctx' buf') =>
      if ctx'.state_ = kGotAll then .halt .complete ctx' buf' else .starve
    | .done (.ret false ctx' buf') => .halt .rejected ctx' buf'
    | .done (.throw e ctx' buf') => .halt (.exception e) ctx' buf'
    | .done .abort => .halt .aborted ctx buf

theorem turn_append {ctx : HttpContext} {buf : Bytes} (x : Bytes)
    (h : turn ctx buf ≠ .starve) :
    turn ctx (buf ++ x) =
      match turn ctx buf with
      | .starve => .starve
      | .more ctx' r => .more ctx' (r ++ x)
      | .halt o ctx' r => .halt o ctx' (r ++ x) := by
  by_cases hs : ctx.state_ = kGotAll
  · simp only [turn, hs, if_true]
  rcases parseStep_append 0 ctx buf x with hw | ha
  · simp [turn, hs, hw] at h
  · simp only [turn, hs, if_false, ha]
    rcases parseStep 0 ctx buf with ⟨c, b⟩ | ⟨_ | _, c, b⟩ | ⟨e, c, b⟩ | _ <;>
      simp only [LoopStep.appendUnread, ParseResult.appendUnread]
    split_ifs <;> rfl

def parser : Consumer HttpContext Verdict UInt8 where
  turn := turn
  more_append x h := by rw [turn_append x (by simp [h]), h]
  halt_append x h := by rw [turn_append x (by simp [h]), h]
  more_shrinks {s s' b r} h := by
    unfold turn at h
    split_ifs at h with hs
    rcases hp : parseStep 0 s b with ⟨c, b'⟩ | ⟨_ | _, c, b'⟩ | ⟨e, c, b'⟩ | _ <;>
      simp only [hp, reduceCtorEq] at h
    · simp only [Turn.more.injEq] at h
      exact h.2 ▸ parseStep_again_length hs hp
    · split_ifs at h

theorem turn_more {ctx ctx' : HttpContext} {buf r : Bytes}
    (h : turn ctx buf = .more ctx' r) :
    ctx.state_ ≠ kGotAll ∧ parseStep 0 ctx buf = .again ctx' r := by
  unfold turn at h
  split_ifs at h with hs
  refine ⟨hs, ?_⟩
  rcases hp : parseStep 0 ctx buf with ⟨c, b'⟩ | ⟨_ | _, c, b'⟩ | ⟨e, c, b'⟩ | _ <;>
    simp only [hp, reduceCtorEq] at h
  · simpa only [Turn.more.injEq, LoopStep.again.injEq] using h
  · split_ifs at h

def resultOf : Option Verdict × HttpContext × Bytes → ParseResult
  | (none, ctx, buf) => .ret true ctx buf
  | (some .complete, ctx, buf) => .ret true ctx buf
  | (some .rejected, ctx, buf) => .ret false ctx buf
  | (some (.exception e), ctx, buf) => .throw e ctx buf
  | (some .aborted, _, _) => .abort

theorem turn_starve {ctx : HttpContext} {buf : Bytes} (h : turn ctx buf = .starve) :
    ctx.state_ ≠ kGotAll ∧ parseStep 0 ctx buf = .done (.ret true ctx buf) := by
  unfold turn at h
  split_ifs at h with hs
  refine ⟨hs, ?_⟩
  rcases hp : parseStep 0 ctx buf with ⟨c, b'⟩ | ⟨_ | _, c, b'⟩ | ⟨e, c, b'⟩ | _ <;>
    simp only [hp, reduceCtorEq] at h
  split_ifs at h with hc
  obtain hc' | ⟨rfl, rfl⟩ := parseStep_ret_true hp
  · exact absurd hc' hc
  · rfl

theorem turn_halt {ctx ctx' : HttpContext} {buf r : Bytes} {v : Verdict}
    (hs : ctx.state_ ≠ kGotAll) (h : turn ctx buf = .halt v ctx' r) :
    parseStep 0 ctx buf = .done (resultOf (some v, ctx', r)) := by
  unfold turn at h
  rw [if_neg hs] at h
  rcases hp : parseStep 0 ctx buf with ⟨c, b'⟩ | ⟨_ | _, c, b'⟩ | ⟨e, c, b'⟩ | _ <;>
    simp only [hp, reduceCtorEq] at h
  · obtain ⟨rfl, rfl, rfl⟩ := Turn.halt.inj h
    rfl
  · split_ifs at h
    obtain ⟨rfl, rfl, rfl⟩ := Turn.halt.inj h
    rfl
  · obtain ⟨rfl, rfl, rfl⟩ := Turn.halt.inj h
    rfl
  · obtain ⟨rfl, rfl, rfl⟩ := Turn.halt.inj h
    rfl

theorem turn_of_again {ctx ctx' : HttpContext} {buf r : Bytes} (hs : ctx.state_ ≠ kGotAll)
    (h : parseStep 0 ctx buf = .again ctx' r) : turn ctx buf = .more ctx' r := by
  simp only [turn, hs, if_false, h]

theorem turn_of_complete {ctx ctx' : HttpContext} {buf r : Bytes} (hs : ctx.state_ ≠ kGotAll)
    (h : parseStep 0 ctx buf = .done (.ret true ctx' r)) (hg : ctx'.state_ = kGotAll) :
    turn ctx buf = .halt .complete ctx' r := by
  simp only [turn, hs, if_false, h, hg, if_true]

/-- Outside `kGotAll` a call ends, and its answer, time of receipt apart, is the loop's. -/
theorem parseLoop_eq {t : Timestamp} {ctx : HttpContext} {buf : Bytes} {fuel : Nat}
    (hs : ctx.state_ ≠ kGotAll) (hf : buf.length < fuel) :
    (parseLoop t fuel ctx buf).map ParseResult.forgetTime =
      some (resultOf (parser.runLoop ctx.forgetTime buf)) := by
  induction fuel generalizing ctx buf with
  | zero => omega
  | succ fuel ih =>
    have hs' : ctx.forgetTime.state_ ≠ kGotAll := hs
    have hp := parseStep_forgetTime t ctx buf
    rw [parseLoop]
    cases ht : turn ctx.forgetTime buf with
    | starve =>
      rw [parser.runLoop_starve ht]
      rw [(turn_starve ht).2] at hp
      rcases hq : parseStep t ctx buf with ⟨c, b⟩ | r
      · simp [hq, LoopStep.forgetTime] at hp
      · rw [hq, LoopStep.forgetTime, LoopStep.done.injEq] at hp
        exact congrArg some hp.symm
    | more ctx' r =>
      rw [parser.runLoop_more ht]
      rw [(turn_more ht).2] at hp
      rcases hq : parseStep t ctx buf with ⟨c, b⟩ | r'
      · rw [hq, LoopStep.forgetTime, LoopStep.again.injEq] at hp
        have hb := parseStep_again_length hs hq
        rw [hp.1, hp.2]
        exact ih (parseStep_again_state hs hq) (by omega)
      · simp [hq, LoopStep.forgetTime] at hp
    | halt v ctx' r =>
      rw [parser.runLoop_halt ht]
      rw [turn_halt hs' ht] at hp
      rcases hq : parseStep t ctx buf with ⟨c, b⟩ | r'
      · simp [hq, LoopStep.forgetTime] at hp
      · rw [hq, LoopStep.forgetTime, LoopStep.done.injEq] at hp
        exact congrArg some hp.symm

/-- In `kGotAll` the loop of `parseRequest` goes round for ever. -/
theorem parseLoop_gotAll (t : Timestamp) {ctx : HttpContext} (hs : ctx.state_ = kGotAll)
    (buf : Bytes) (fuel : Nat) : parseLoop t fuel ctx buf = none := by
  induction fuel with
  | zero => rfl
  | succ fuel ih =>
    rw [parseLoop, (Round.spin hs).eq]
    exact ih

theorem parseRequest_eq_none {ctx : HttpContext} {buf : Bytes} {t : Timestamp} :
    parseRequest ctx buf t = none ↔ ctx.state_ = kGotAll := by
  constructor
  · intro h
    by_contra hs
    have he := parseLoop_eq (t := t) hs (Nat.lt_succ_self buf.length)
    rw [show parseLoop t _ ctx buf = none from h] at he
    simp at he
  · intro hs
    exact parseLoop_gotAll t hs buf _

theorem parseRequest_of_done {ctx : HttpContext} {buf : Bytes} {t : Timestamp} {r : ParseResult}
    (h : parseStep t ctx buf = .done r) : parseRequest ctx buf t = some r := by
  rw [parseRequest, parseLoop, h]

/-! ## The rounds of one call -/

/-- The rounds of a call that went on, from where it started to where it stands. -/
inductive Rounds (t : Timestamp) : HttpContext → Bytes → HttpContext → Bytes → Prop where
  | refl (ctx : HttpContext) (buf : Bytes) : Rounds t ctx buf ctx buf
  | step {ctx ctx₁ ctx₂ : HttpContext} {buf buf₁ buf₂ : Bytes}
      (h : parseStep t ctx buf = .again ctx₁ buf₁) (hr : Rounds t ctx₁ buf₁ ctx₂ buf₂) :
      Rounds t ctx buf ctx₂ buf₂

theorem parseLoop_rounds {t : Timestamp} {fuel : Nat} {ctx : HttpContext} {buf : Bytes}
    {r : ParseResult} (h : parseLoop t fuel ctx buf = some r) :
    ∃ ctx' buf', Rounds t ctx buf ctx' buf' ∧ parseStep t ctx' buf' = .done r := by
  induction fuel generalizing ctx buf with
  | zero => simp [parseLoop] at h
  | succ fuel ih =>
    rw [parseLoop] at h
    rcases hp : parseStep t ctx buf with ⟨ctx₁, buf₁⟩ | r'
    · rw [hp] at h
      obtain ⟨ctx', buf', hr, hd⟩ := ih h
      exact ⟨ctx', buf', .step hp hr, hd⟩
    · rw [hp] at h
      exact ⟨ctx, buf, .refl ctx buf, hp.trans (congrArg LoopStep.done (Option.some.inj h))⟩

def LoopStep.isDone : LoopStep → Bool
  | .again _ _ => false
  | .done _ => true

theorem Rounds.eq_of_isDone {t : Timestamp} {ctx ctx' : HttpContext} {buf buf' : Bytes}
    (h : Rounds t ctx buf ctx' buf') (hd : (parseStep t ctx buf).isDone) :
    ctx' = ctx ∧ buf' = buf := by
  cases h with
  | refl => exact ⟨rfl, rfl⟩
  | step hp => simp [hp, LoopStep.isDone] at hd

/-- The rounds that reach the one that returns give the result of the call. -/
theorem Rounds.parseRequest_eq {t : Timestamp} {ctx ctx' : HttpContext} {buf buf' : Bytes}
    {r : ParseResult} (h : Rounds t ctx buf ctx' buf') (hg : ctx.state_ ≠ kGotAll)
    (hd : parseStep t ctx' buf' = .done r) : parseRequest ctx buf t = some r := by
  rcases hq : parseRequest ctx buf t with _ | r'
  · exact absurd (parseRequest_eq_none.mp hq) hg
  obtain ⟨ctx'', buf'', h', hd'⟩ := parseLoop_rounds hq
  clear hq hg
  -- both chains follow the one function `parseStep` until it returns
  induction h with
  | refl =>
    obtain ⟨rfl, rfl⟩ := h'.eq_of_isDone (by rw [hd]; rfl)
    rw [hd] at hd'
    rw [LoopStep.done.inj hd']
  | step hp _ ih =>
    cases h' with
    | refl => simp [hp] at hd'
    | step hp' hr =>
      rw [hp, LoopStep.again.injEq] at hp'
      obtain ⟨rfl, rfl⟩ := hp'
      exact ih hd hr

theorem Rounds.eq_of_gotAll {t : Timestamp} {ctx ctx' : HttpContext} {buf buf' : Bytes}
    (h : Rounds t ctx buf ctx' buf') (hs : ctx.state_ = kGotAll) : ctx' = ctx := by
  induction h with
  | refl => rfl
  | step hp _ ih =>
    rw [(Round.spin hs).eq, LoopStep.again.injEq] at hp
    obtain ⟨rfl, rfl⟩ := hp
    exact ih hs

/-- A request line is only ever read by the first round of a call. -/
theorem Rounds.eq_of_requestLine {t : Timestamp} {ctx ctx' : HttpContext} {buf buf' : Bytes}
    (h : Rounds t ctx buf ctx' buf') (hg : ctx.state_ ≠ kGotAll)
    (hs : ctx'.state_ = kExpectRequestLine) : ctx' = ctx ∧ buf' = buf := by
  suffices hne : ∀ {ctx ctx' : HttpContext} {buf buf' : Bytes}, Rounds t ctx buf ctx' buf' →
      (ctx.state_ = kExpectHeaders ∨ ctx.state_ = kExpectBody) →
      ctx'.state_ ≠ kExpectRequestLine by
    cases h with
    | refl => exact ⟨rfl, rfl⟩
    | step hp hr => exact absurd hs (hne hr (parseStep_again hg hp).1)
  clear h hg hs
  intro ctx ctx' buf buf' h hs
  induction h with
  | refl => rcases hs with hs | hs <;> simp [hs]
  | step hp _ ih =>
    exact ih (parseStep_again (by rcases hs with hs | hs <;> simp [hs]) hp).1

def fedOf : Option Verdict × HttpContext × Bytes → Fed
  | (none, ctx, buf) => { outcome := .waiting, context := ctx, unread := buf }
  | (some .complete, ctx, buf) => { outcome := .complete, context := ctx, unread := buf }
  | (some .rejected, ctx, buf) => { outcome := .rejected, context := ctx, unread := buf }
  | (some (.exception e), ctx, buf) =>
    { outcome := .exception e, context := ctx, unread := buf }
  | (some .aborted, _, _) => { outcome := .aborted }

theorem turn_halt_gotAll {ctx ctx' : HttpContext} {buf r : Bytes}
    (h : turn ctx buf = .halt .complete ctx' r) : ctx'.state_ = kGotAll := by
  unfold turn at h
  split_ifs at h with hs
  · obtain ⟨-, rfl, -⟩ := Turn.halt.inj h
    exact hs
  · rcases hp : parseStep 0 ctx buf with ⟨c, b'⟩ | ⟨_ | _, c, b'⟩ | ⟨e, c, b'⟩ | _ <;>
      simp only [hp, reduceCtorEq, Turn.halt.injEq, false_and] at h
    split_ifs at h with hc
    obtain ⟨-, rfl, -⟩ := Turn.halt.inj h
    exact hc

theorem runLoop_complete {ctx ctx' : HttpContext} {buf r : Bytes}
    (h : parser.runLoop ctx buf = (some .complete, ctx', r)) : ctx'.state_ = kGotAll := by
  induction ctx, buf using parser.runLoop_induction with
  | starve s b ht => simp [parser.runLoop_starve ht] at h
  | halt s b o s₁ r₁ ht =>
    rw [parser.runLoop_halt ht] at h
    simp only [Prod.mk.injEq, Option.some.injEq] at h
    obtain ⟨rfl, rfl, rfl⟩ := h
    exact turn_halt_gotAll ht
  | more s b s₁ r₁ ht ih => exact ih (parser.runLoop_more ht ▸ h)

theorem feed_eq_parser_feed {ctx : HttpContext} {buf : Bytes} (hs : ctx.state_ ≠ kGotAll)
    (cs : List (Bytes × Timestamp)) :
    (feed ctx buf cs).forgetTime =
      fedOf (parser.feed ctx.forgetTime buf (cs.map Prod.fst)) := by
  induction cs generalizing ctx buf with
  | nil => rfl
  | cons c cs ih =>
    obtain ⟨c, t⟩ := c
    have hp := parseLoop_eq (t := t) hs (Nat.lt_succ_self (buf ++ c).length)
    rw [feed, List.map_cons, Consumer.feed]
    change (Option.map _ (parseRequest ctx (buf ++ c) t)) = _ at hp
    rcases hq : parseRequest ctx (buf ++ c) t with _ | r
    · simp [hq] at hp
    rw [hq, Option.map_some, Option.some.injEq] at hp
    rcases hr : parser.runLoop ctx.forgetTime (buf ++ c) with ⟨_ | v, s', b'⟩
    · -- the loop starves: the context is not complete, and the next chunk is fed
      have hstate := (turn_starve (parser.runLoop_none hr)).1
      rw [hr] at hp
      obtain ⟨ctx', rfl, rfl⟩ := ParseResult.eq_ret_of_forgetTime hp
      have hg : ctx'.gotAll = false := by simpa [gotAll] using hstate
      simp only [hg]
      exact ih hstate
    · rw [hr] at hp
      cases v with
      | complete =>
        have hstate := runLoop_complete hr
        obtain ⟨ctx', rfl, rfl⟩ := ParseResult.eq_ret_of_forgetTime hp
        have hg : ctx'.gotAll = true := by simpa [gotAll] using hstate
        simp only [hg, if_true]
        rfl
      | rejected =>
        obtain ⟨ctx', rfl, rfl⟩ := ParseResult.eq_ret_of_forgetTime hp
        rfl
      | exception e =>
        obtain ⟨ctx', rfl, rfl⟩ := ParseResult.eq_throw_of_forgetTime hp
        rfl
      | aborted =>
        rw [ParseResult.eq_abort_of_forgetTime hp]
        rfl

/-- **However a stream is cut, feeding it is one run of the loop over all of it.** -/
theorem feed_eq_runLoop {ctx : HttpContext} {buf : Bytes}
    (hw : turn ctx.forgetTime buf = .starve) (cs : List (Bytes × Timestamp)) :
    (feed ctx buf cs).forgetTime =
      fedOf (parser.runLoop ctx.forgetTime (buf ++ (cs.map Prod.fst).flatten)) := by
  have hs : ctx.state_ ≠ kGotAll := (turn_starve hw).1
  rw [feed_eq_parser_feed hs, parser.feed_eq_runLoop hw]

theorem turn_fresh : turn {} [] = .starve := by
  simp [turn, parseStep, findCRLF]

theorem runLoop_ne_aborted {ctx : HttpContext} (buf : Bytes)
    (h : ctx.state_ = kExpectRequestLine → ctx.request_.method_ = .kInvalid) :
    (parser.runLoop ctx buf).1 ≠ some .aborted := by
  induction ctx, buf using parser.runLoop_induction with
  | starve s b ht => simp [parser.runLoop_starve ht]
  | halt s b o s₁ r₁ ht =>
    rw [parser.runLoop_halt ht]
    rintro ⟨⟩
    by_cases hs : s.state_ = kGotAll
    · rw [show parser.turn s b = turn s b from rfl, turn, if_pos hs] at ht
      simp at ht
    · obtain ⟨hl, hm⟩ := parseStep_abort (turn_halt hs ht)
      exact hm (h hl)
  | more s b s₁ r₁ ht ih =>
    rw [parser.runLoop_more ht]
    obtain ⟨hs, hp⟩ := turn_more ht
    apply ih
    intro hl
    rcases (parseStep_again hs hp).1 with h | h <;> simp [h] at hl

/-- **The cut does not matter.** Two ways to cut one stream into chunks leave a fresh
connection with the same outcome, the same context up to the time of receipt and the
same unread bytes; and no call on the way fails its assertion or runs for ever. -/
theorem feed_eq_of_flatten_eq (cs cs' : List (Bytes × Timestamp))
    (h : (cs.map Prod.fst).flatten = (cs'.map Prod.fst).flatten) :
    (feed {} [] cs).forgetTime = (feed {} [] cs').forgetTime ∧
      (feed {} [] cs).outcome ≠ .aborted ∧ (feed {} [] cs).outcome ≠ .stuck := by
  have he (ds : List (Bytes × Timestamp)) : (feed {} [] ds).forgetTime =
      fedOf (parser.runLoop {} (ds.map Prod.fst).flatten) :=
    @feed_eq_runLoop {} [] turn_fresh ds
  refine ⟨by rw [he, he, h], ?_⟩
  have ho : (feed {} [] cs).outcome =
      (fedOf (parser.runLoop {} (cs.map Prod.fst).flatten)).outcome := by
    rw [← he cs]
    rfl
  have hne := @runLoop_ne_aborted {} (cs.map Prod.fst).flatten fun _ => rfl
  rw [ho]
  rcases hr : parser.runLoop {} (cs.map Prod.fst).flatten with ⟨_ | _ | _ | _ | _, c, b⟩ <;>
    simp_all [fedOf]

/-- A request cut inside its CR LF and inside its body, against the same in one piece. -/
theorem feed_eq_of_flatten_eq_cut_inside :
    let cut := [(bytes "PUT /a HTTP/1.1\r", 3), (bytes "\nContent-Length: 2\r\n\r\nx", 5),
      (bytes "yGET", 8)]
    let whole := [(bytes "PUT /a HTTP/1.1\r\nContent-Length: 2\r\n\r\nxyGET", 9)]
    (cut.map Prod.fst).flatten = (whole.map Prod.fst).flatten ∧
      (feed {} [] cut).forgetTime = (feed {} [] whole).forgetTime ∧
      (feed {} [] whole).outcome = .complete ∧ (feed {} [] whole).unread = bytes "GET" :=
  ⟨by decide, (feed_eq_of_flatten_eq _ _ (by decide)).1, by decide, by decide⟩

end HttpContext
end Workplace.Http
