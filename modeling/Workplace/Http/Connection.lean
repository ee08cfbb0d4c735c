import Workplace.Http.Chunking
import Workplace.Lib.Runs

/-! `HttpServer::onMessage` on one plain connection, called once for every chunk that
arrives. `shutdown` only closes the sending half, so chunks keep arriving after a 400. -/

namespace Workplace.Http
open HttpRequestParseState Workplace.Lib

/-- What a call of `onMessage` does that the peer or the handlers see. -/
inductive Event where
  -- `HTTP/1.1 400 Bad Request`, then `shutdown()`
  | badRequest
  | onRequest (req : HttpRequest)
  deriving DecidableEq

/-- The calls are over once an assertion killed the process or a call never returned. -/
inductive Status where
  | running
  | aborted
  | hung
  deriving DecidableEq, Repr

/-- A chunk, and what the HTTP callback would do at that moment with a request. -/
structure Delivery where
  chunk : Bytes
  receiveTime : Timestamp := 0
  callbackThrows : HttpRequest → Bool := fun _ => false

structure Connection where
  context : HttpContext := {}
  inputBuffer : Bytes := []
  status : Status := .running
  -- what each call did, the first call first
  calls : List (List Event) := []
  deriving DecidableEq

namespace Connection

/-- `onMessage` after its call of `parseRequest`. -/
def afterParse (conn : Connection) (d : Delivery) :
    Option HttpContext.ParseResult → Connection
  | none => { conn with status := .hung, calls := conn.calls ++ [[]] }
  | some .abort => { conn with status := .aborted, calls := conn.calls ++ [[]] }
  | some (.throw _ ctx buf) =>
    { conn with context := ctx, inputBuffer := buf, calls := conn.calls ++ [[.badRequest]] }
  | some (.ret ok ctx buf) =>
    let events := if ok then [] else [Event.badRequest]
    if ctx.gotAll then
      if d.callbackThrows ctx.request_ then
        -- the exception leaves `onRequest`, and `reset` is not reached
        { conn with
          context := ctx
          inputBuffer := buf
          calls := conn.calls ++ [events ++ [.onRequest ctx.request_, .badRequest]] }
      else
        { conn with
          context := ctx.reset
          inputBuffer := buf
          calls := conn.calls ++ [events ++ [.onRequest ctx.request_]] }
    else { conn with context := ctx, inputBuffer := buf, calls := conn.calls ++ [events] }

def onMessage (conn : Connection) (d : Delivery) : Connection :=
  if conn.status = .running then
    conn.afterParse d
      (conn.context.parseRequest (conn.inputBuffer ++ d.chunk) d.receiveTime)
  else conn

def deliver (ds : List Delivery) : Connection := ds.foldl onMessage {}

theorem running_of_onMessage {conn : Connection} {d : Delivery}
    (h : (conn.onMessage d).status = .running) : conn.status = .running := by
  by_contra hn
  rw [onMessage, if_neg hn] at h
  exact hn h

theorem deliver_snoc (ds : List Delivery) (d : Delivery) :
    deliver (ds ++ [d]) = (deliver ds).onMessage d := by
  simp only [deliver, List.foldl_append, List.foldl_cons, List.foldl_nil]

/-! ## What a call can do -/

/-- The header lines go wrong without an exception: a line that has no colon and is not
blank, or the blank line of a POST or PUT whose Content-Length is absent or empty. -/
def HeadFault (ctx : HttpContext) (buf : Bytes) : Prop :=
  ctx.state_ = kExpectHeaders ∧
    ((∃ i, findCRLF buf = some i ∧ i ≠ 0 ∧ cut 58 (buf.take i) = none) ∨
      findCRLF buf = some 0 ∧ (ctx.request_.method_ = .kPost ∨ ctx.request_.method_ = .kPut) ∧
        ctx.request_.getHeader (bytes "Content-Length") = [])

/-- Everything a call of `onMessage` can do in a running process. -/
inductive Call (conn : Connection) (d : Delivery) : Connection → Prop where
  | hangs (hs : conn.context.state_ = kGotAll) :
      Call conn d { conn with status := .hung, calls := conn.calls ++ [[]] }
  | asserts {i : Nat} (hs : conn.context.state_ = kExpectRequestLine)
      (hf : findCRLF (conn.inputBuffer ++ d.chunk) = some i)
      (hp : HttpContext.processRequestLine conn.context.request_
        ((conn.inputBuffer ++ d.chunk).take i) = none) :
      Call conn d { conn with status := .aborted, calls := conn.calls ++ [[]] }
  | refusesLine {i : Nat} {req : HttpRequest} (hs : conn.context.state_ = kExpectRequestLine)
      (hf : findCRLF (conn.inputBuffer ++ d.chunk) = some i)
      (hp : HttpContext.processRequestLine conn.context.request_
        ((conn.inputBuffer ++ d.chunk).take i) = some (false, req)) :
      Call conn d { conn with
        context := { state_ := kExpectRequestLine, request_ := req }
        inputBuffer := conn.inputBuffer ++ d.chunk
        calls := conn.calls ++ [[.badRequest]] }
  | refusesHead {ctx : HttpContext} {buf rest : Bytes}
      (hr : HttpContext.Rounds d.receiveTime conn.context (conn.inputBuffer ++ d.chunk) ctx buf)
      (hf : HeadFault ctx buf) :
      Call conn d { conn with
        context := ctx, inputBuffer := rest, calls := conn.calls ++ [[.badRequest]] }
  | throws {ctx : HttpContext} {buf : Bytes} {e : StdException} (hs : ctx.state_ = kExpectHeaders)
      (hf : findCRLF buf = some 0)
      (hm : ctx.request_.method_ = .kPost ∨ ctx.request_.method_ = .kPut)
      (hl : ctx.request_.getHeader (bytes "Content-Length") ≠ [])
      (hn : stoi (ctx.request_.getHeader (bytes "Content-Length")) = .error e) :
      Call conn d { conn with
        context := ctx, inputBuffer := buf, calls := conn.calls ++ [[.badRequest]] }
  | waits {ctx : HttpContext} {buf : Bytes}
      (hr : HttpContext.Rounds d.receiveTime conn.context (conn.inputBuffer ++ d.chunk) ctx buf)
      (hg : conn.context.state_ ≠ kGotAll) (hs : ctx.state_ ≠ kGotAll) :
      Call conn d { conn with
        context := ctx, inputBuffer := buf, calls := conn.calls ++ [[]] }
  | dispatches {ctx : HttpContext} {buf : Bytes} (hs : ctx.state_ = kGotAll) :
      Call conn d { conn with
        context := ctx.reset
        inputBuffer := buf
        calls := conn.calls ++ [[.onRequest ctx.request_]] }
  | callbackThrows {ctx : HttpContext} {buf : Bytes} (hs : ctx.state_ = kGotAll) :
      Call conn d { conn with
        context := ctx
        inputBuffer := buf
        calls := conn.calls ++ [[.onRequest ctx.request_, .badRequest]] }

theorem afterParse_gotAll (conn : Connection) (d : Delivery) {ctx : HttpContext} (buf : Bytes)
    (hs : ctx.state_ = kGotAll) : Call conn d (conn.afterParse d (some (.ret true ctx buf))) := by
  simp only [afterParse, HttpContext.gotAll, hs, decide_true, if_true, List.nil_append]
  split_ifs
  · exact .callbackThrows hs
  · exact .dispatches hs

theorem onMessage_call {conn : Connection} (d : Delivery) (hr : conn.status = .running) :
    Call conn d (conn.onMessage d) := by
  rw [onMessage, if_pos hr]
  rcases hq : conn.context.parseRequest (conn.inputBuffer ++ d.chunk) d.receiveTime with _ | r
  · exact .hangs (HttpContext.parseRequest_eq_none.mp hq)
  have hg : conn.context.state_ ≠ kGotAll := fun hg => by
    simp [HttpContext.parseRequest_eq_none.mpr hg] at hq
  obtain ⟨ctx, buf, hrounds, hd⟩ := HttpContext.parseLoop_rounds hq
  have hgo {c : HttpContext} (hs : c.state_ ≠ kGotAll) : c.gotAll = false := by
    simpa [HttpContext.gotAll] using hs
  cases hd ▸ HttpContext.parseStep_round d.receiveTime ctx buf with
  | lineAssert hs hf hp =>
    obtain ⟨rfl, rfl⟩ := hrounds.eq_of_requestLine hg hs
    exact .asserts hs hf hp
  | @lineRefused i req hs hf hp =>
    obtain ⟨rfl, rfl⟩ := hrounds.eq_of_requestLine hg hs
    simp only [afterParse, hgo (c := { state_ := kExpectRequestLine, request_ := req }) (by simp)]
    exact .refusesLine hs hf hp
  | headerRefused hs hf hc hi =>
    simp only [afterParse, hgo (c := ctx) (by simp [hs])]
    exact .refusesHead hrounds ⟨hs, .inl ⟨_, hf, hi, hc⟩⟩
  | lengthMissing hs hf hm hl =>
    simp only [afterParse, hgo (c := ctx) (by simp [hs])]
    exact .refusesHead hrounds ⟨hs, .inr ⟨hf, hm, hl⟩⟩
  | lengthThrows hs hf hm hl hn => exact .throws hs hf hm hl hn
  | waitLine hs hf =>
    have hs' : ctx.state_ ≠ kGotAll := by rcases hs with hs | hs <;> simp [hs]
    simp only [afterParse, hgo hs']
    exact .waits hrounds hg hs'
  | waitBody hs _ =>
    have hs' : ctx.state_ ≠ kGotAll := by simp [hs]
    simp only [afterParse, hgo hs']
    exact .waits hrounds hg hs'
  | bodyEmpty => exact afterParse_gotAll conn d _ rfl
  | noBody => exact afterParse_gotAll conn d _ rfl
  | body => exact afterParse_gotAll conn d _ rfl

theorem onMessage_calls {conn : Connection} (d : Delivery) (hr : conn.status = .running) :
    ∃ events, (conn.onMessage d).calls = conn.calls ++ [events] := by
  have h := onMessage_call d hr
  generalize conn.onMessage d = conn' at h
  cases h <;> exact ⟨_, rfl⟩

/-! ## After a 400 -/

/-- The states in which no further bytes can complete a request: the calls are over, a
request line that was refused is still the first line of the buffer, a length that threw
still meets its blank line, or a finished request was never reset. -/
inductive Dead (conn : Connection) : Prop where
  | ended (h : conn.status ≠ .running)
  | line {i : Nat} (hs : conn.context.state_ = kExpectRequestLine)
      (hf : findCRLF conn.inputBuffer = some i)
      (hl : ¬ HttpContext.AcceptsLine (conn.inputBuffer.take i))
  | length {e : StdException} (hs : conn.context.state_ = kExpectHeaders)
      (hf : findCRLF conn.inputBuffer = some 0)
      (hm : conn.context.request_.method_ = .kPost ∨ conn.context.request_.method_ = .kPut)
      (hl : conn.context.request_.getHeader (bytes "Content-Length") ≠ [])
      (hn : stoi (conn.context.request_.getHeader (bytes "Content-Length")) = .error e)
  | finished (hs : conn.context.state_ = kGotAll)

theorem Dead.onMessage {conn : Connection} (h : Dead conn) (d : Delivery)
    (hr : conn.status = .running) :
    Dead (conn.onMessage d) ∧ ∃ events, (conn.onMessage d).calls = conn.calls ++ [events] ∧
      ∀ req, .onRequest req ∉ events := by
  rw [Connection.onMessage, if_pos hr]
  cases h with
  | ended h => exact absurd hr h
  | @line i hs hf hl =>
    have hf' := findCRLF_append d.chunk hf
    have htake := take_findCRLF_append d.chunk hf
    rcases hp : HttpContext.processRequestLine conn.context.request_
        ((conn.inputBuffer ++ d.chunk).take i) with _ | ⟨_ | _, req⟩
    · rw [HttpContext.parseRequest_of_done (HttpContext.Round.lineAssert hs hf' hp).eq]
      exact ⟨.ended (by simp [afterParse]), [], rfl, by simp⟩
    · rw [HttpContext.parseRequest_of_done (HttpContext.Round.lineRefused hs hf' hp).eq]
      refine ⟨.line (i := i) rfl hf' ?_, [.badRequest], rfl, by simp⟩
      exact htake ▸ hl
    · exact absurd ((HttpContext.processRequestLine_accepts hp).mp rfl) (htake ▸ hl)
  | length hs hf hm hl hn =>
    have hf' := findCRLF_append d.chunk hf
    rw [HttpContext.parseRequest_of_done (HttpContext.Round.lengthThrows hs hf' hm hl hn).eq]
    exact ⟨.length hs hf' hm hl hn, [.badRequest], rfl, by simp⟩
  | finished hs =>
    rw [HttpContext.parseRequest_eq_none.mpr hs]
    exact ⟨.ended (by simp [afterParse]), [], rfl, by simp⟩

theorem Call.dead_of_badRequest {conn conn' : Connection} {d : Delivery} {events : List Event}
    (h : Call conn d conn') (he : conn'.calls = conn.calls ++ [events])
    (hg : ∀ ctx buf, HttpContext.Rounds d.receiveTime conn.context
      (conn.inputBuffer ++ d.chunk) ctx buf → ¬ HeadFault ctx buf)
    (hb : .badRequest ∈ events) : Dead conn' := by
  cases h with
  | hangs => exact .ended (by simp)
  | asserts => exact .ended (by simp)
  | refusesLine hs hf hp =>
    refine .line rfl hf fun ha => ?_
    simpa using (HttpContext.processRequestLine_accepts hp).mpr ha
  | refusesHead hr hf => exact absurd hf (hg _ _ hr)
  | throws hs hf hm hl hn => exact .length hs hf hm hl hn
  | waits =>
    obtain rfl : events = [] := by simpa using he.symm
    simp at hb
  | dispatches =>
    have hev := List.append_cancel_left he
    rw [List.cons.injEq] at hev
    simp [← hev.1] at hb
  | callbackThrows hs => exact .finished hs

def NothingAfter400 (conn : Connection) : Prop :=
  conn.calls.Pairwise fun earlier later =>
    .badRequest ∈ earlier → ∀ req, .onRequest req ∉ later

def Settled (conn : Connection) : Prop :=
  NothingAfter400 conn ∧ ((∃ events ∈ conn.calls, .badRequest ∈ events) → Dead conn)

/-- In this state the delivery lets the header lines run into no fault. -/
def NoHeadFault (conn : Connection) (d : Delivery) : Prop :=
  ∀ ctx buf, HttpContext.Rounds d.receiveTime conn.context (conn.inputBuffer ++ d.chunk)
    ctx buf → ¬ HeadFault ctx buf

theorem Settled.onMessage {conn : Connection} (h : Settled conn) (d : Delivery)
    (hg : NoHeadFault conn d) : Settled (conn.onMessage d) := by
  by_cases hr : conn.status = .running
  swap
  · rw [Connection.onMessage, if_neg hr]
    exact h
  by_cases hb : ∃ events ∈ conn.calls, Event.badRequest ∈ events
  · obtain ⟨hdead, events, he, hno⟩ := (h.2 hb).onMessage d hr
    refine ⟨?_, fun _ => hdead⟩
    rw [NothingAfter400, he, List.pairwise_append]
    refine ⟨h.1, List.pairwise_singleton _ _, fun _ _ later hl _ => ?_⟩
    rw [List.mem_singleton.mp hl]
    exact hno
  · obtain ⟨events, he⟩ := onMessage_calls d hr
    have hcall := onMessage_call d hr
    constructor
    · rw [NothingAfter400, he, List.pairwise_append]
      exact ⟨h.1, List.pairwise_singleton _ _, fun e hm _ _ h4 => absurd ⟨e, hm, h4⟩ hb⟩
    · rintro ⟨e, hm, h4⟩
      rw [he, List.mem_append, List.mem_singleton] at hm
      rcases hm with hm | rfl
      · exact absurd ⟨e, hm, h4⟩ hb
      · exact hcall.dead_of_badRequest he hg h4

/-- **A rejected connection dispatches nothing more**, as long as no call ran into a fault
of the header lines. -/
theorem nothingAfter400_of_noHeadFault (ds : List Delivery)
    (h : Guarded NoHeadFault (fun conn d => some (conn.onMessage d)) {} ds) :
    NothingAfter400 (deliver ds) := by
  have h0 : Settled {} := ⟨List.Pairwise.nil, by simp⟩
  have hstep {conn conn' : Connection} {d : Delivery} (hi : Settled conn)
      (hg : NoHeadFault conn d) (he : some (conn.onMessage d) = some conn') : Settled conn' :=
    Option.some.inj he ▸ hi.onMessage d hg
  exact (run_invariant ds hstep h0 h (run_some onMessage {} ds)).1

/-- A header line without a colon is answered 400 and eaten; the blank line that comes
after it completes the request. -/
theorem dispatches_after_400 : ¬ ∀ ds : List Delivery, NothingAfter400 (deliver ds) := by
  intro h
  let ds : List Delivery :=
    [{ chunk := bytes "GET / HTTP/1.1\r\nbad\r\n" }, { chunk := bytes "\r\n" }]
  let req : HttpRequest :=
    { method_ := .kGet
      version_ := bytes "HTTP/1.1"
      path_ := bytes "/" }
  have hcalls : (deliver ds).calls = [[.badRequest], [.onRequest req]] := by decide
  have hp := h ds
  rw [NothingAfter400, hcalls] at hp
  simp at hp

/-- A request line that is refused twice: the second chunk changes nothing. -/
theorem nothingAfter400_of_noHeadFault_badMethod :
    let ds : List Delivery := [{ chunk := bytes "FOO / HTTP/1.1\r\n" },
      { chunk := bytes "GET / HTTP/1.1\r\n\r\n" }]
    Guarded NoHeadFault (fun conn d => some (conn.onMessage d)) {} ds ∧
      NothingAfter400 (deliver ds) ∧ (deliver ds).calls = [[.badRequest], [.badRequest]] := by
  intro ds
  have hg : Guarded NoHeadFault (fun conn d => some (conn.onMessage d)) {} ds := by
    refine ⟨fun ctx buf hr hf => ?_, fun conn he => ⟨fun ctx buf hr hf => ?_, fun _ _ => trivial⟩⟩
    · obtain ⟨rfl, -⟩ := hr.eq_of_isDone (by decide)
      exact absurd hf.1 (by decide)
    · obtain rfl := Option.some.inj he
      obtain ⟨rfl, -⟩ := hr.eq_of_isDone (by decide)
      exact absurd hf.1 (by decide)
  exact ⟨hg, nothingAfter400_of_noHeadFault ds hg, by decide⟩

/-! ## The assertion of `setMethod` -/

/-- The next line to be read is a request line that names a method and is refused. -/
def RefusesNamedLine (conn : Connection) (d : Delivery) : Prop :=
  conn.context.state_ = kExpectRequestLine ∧
    ∃ i, findCRLF (conn.inputBuffer ++ d.chunk) = some i ∧
      HttpContext.NamesMethod ((conn.inputBuffer ++ d.chunk).take i) ∧
      ¬ HttpContext.AcceptsLine ((conn.inputBuffer ++ d.chunk).take i)

/-- The parser expects a request line but the request already has a method: the line that
set it is still in the buffer. -/
def Primed (conn : Connection) : Prop :=
  conn.context.state_ = kExpectRequestLine ∧ conn.context.request_.method_ ≠ .kInvalid

def HoldsLine (conn : Connection) : Prop :=
  ∃ i, findCRLF conn.inputBuffer = some i ∧ (cut 32 (conn.inputBuffer.take i)).isSome

theorem onMessage_aborted {conn : Connection} (d : Delivery) (h : conn.status = .aborted) :
    (conn.onMessage d).status = .aborted := by
  rw [onMessage, if_neg (by simp [h])]
  exact h

theorem Primed.onMessage {conn : Connection} (h : Primed conn) (hl : HoldsLine conn)
    (hr : conn.status = .running) (d : Delivery) : (conn.onMessage d).status = .aborted := by
  obtain ⟨i, hf, hc⟩ := hl
  have hp : HttpContext.processRequestLine conn.context.request_
      ((conn.inputBuffer ++ d.chunk).take i) = none := by
    rw [HttpContext.processRequestLine_eq_none, take_findCRLF_append d.chunk hf]
    exact ⟨hc, h.2⟩
  rw [Connection.onMessage, if_pos hr, HttpContext.parseRequest_of_done
    (HttpContext.Round.lineAssert h.1 (findCRLF_append d.chunk hf) hp).eq]
  rfl

theorem Primed.of_onMessage {conn : Connection} {d : Delivery} (hr : conn.status = .running)
    (hi : Primed conn → HoldsLine conn) (hr' : (conn.onMessage d).status = .running)
    (h : Primed (conn.onMessage d)) :
    RefusesNamedLine conn d ∧ HoldsLine (conn.onMessage d) := by
  have hcall := onMessage_call d hr
  -- a method set before this call would have failed the assertion in it
  have hclean : conn.context.state_ = kExpectRequestLine →
      conn.context.request_.method_ = .kInvalid := by
    intro hs
    by_contra hm
    have := Primed.onMessage ⟨hs, hm⟩ (hi ⟨hs, hm⟩) hr d
    simp [hr'] at this
  generalize conn.onMessage d = conn' at hcall hr' h
  cases hcall with
  | hangs => simp at hr'
  | asserts => simp at hr'
  | refusesLine hs hf hp =>
    have hn := (HttpContext.processRequestLine_method (hclean hs) hp).mp h.2
    refine ⟨⟨hs, _, hf, hn, fun ha => ?_⟩, _, hf, ?_⟩
    · simpa using (HttpContext.processRequestLine_accepts hp).mpr ha
    · obtain ⟨m, after, hcut, -⟩ := hn
      exact hcut ▸ rfl
  | refusesHead _ hf => exact absurd (hf.1.symm.trans h.1) (by decide)
  | throws hs => exact absurd (hs.symm.trans h.1) (by decide)
  | waits hrounds hg hs =>
    obtain ⟨rfl, rfl⟩ := hrounds.eq_of_requestLine hg h.1
    exact absurd (hclean h.1) h.2
  | dispatches => exact absurd rfl h.2
  | callbackThrows hs => exact absurd (hs.symm.trans h.1) (by decide)

/-- A refused line that names a method is fatal: the process dies in this call or in the
next one. -/
theorem RefusesNamedLine.primed {conn : Connection} {d : Delivery} (h : RefusesNamedLine conn d)
    (hr : conn.status = .running) :
    (conn.onMessage d).status = .aborted ∨ (conn.onMessage d).status = .running ∧
      Primed (conn.onMessage d) ∧ HoldsLine (conn.onMessage d) := by
  obtain ⟨hs, i, hf, hn, hna⟩ := h
  rw [Connection.onMessage, if_pos hr]
  rcases hp : HttpContext.processRequestLine conn.context.request_
      ((conn.inputBuffer ++ d.chunk).take i) with _ | ⟨_ | _, req⟩
  · rw [HttpContext.parseRequest_of_done (HttpContext.Round.lineAssert hs hf hp).eq]
    exact .inl rfl
  · rw [HttpContext.parseRequest_of_done (HttpContext.Round.lineRefused hs hf hp).eq]
    obtain ⟨m, after, hcut, -⟩ := id hn
    have hclean : conn.context.request_.method_ = .kInvalid := by
      by_contra hm
      have hnone := HttpContext.processRequestLine_eq_none.mpr
        ⟨Option.isSome_of_eq_some hcut, hm⟩
      simp [hnone] at hp
    refine .inr ⟨hr, ⟨rfl, ?_⟩, i, hf, hcut ▸ rfl⟩
    exact (HttpContext.processRequestLine_method hclean hp).mpr hn
  · exact absurd ((HttpContext.processRequestLine_accepts hp).mp rfl) hna

/-- A chunk that was not the last one and that completed a request line which names a
method and is refused. -/
def RefusedEarlier (ds : List Delivery) : Prop :=
  ∃ pre d rest, ds = pre ++ d :: rest ∧ rest ≠ [] ∧ (deliver pre).status = .running ∧
    RefusesNamedLine (deliver pre) d

theorem foldl_of_ended {conn : Connection} (h : conn.status ≠ .running) (ds : List Delivery) :
    ds.foldl onMessage conn = conn := by
  induction ds with
  | nil => rfl
  | cons d ds ih => rw [List.foldl_cons, onMessage, if_neg h, ih]

theorem RefusedEarlier.aborted {ds : List Delivery} (h : RefusedEarlier ds) :
    (deliver ds).status = .aborted := by
  obtain ⟨pre, d, rest, rfl, hne, hr, href⟩ := h
  obtain ⟨d', rest', rfl⟩ := List.exists_cons_of_ne_nil hne
  have ha : (((deliver pre).onMessage d).onMessage d').status = .aborted := by
    rcases href.primed hr with ha | ⟨hr', hp, hl⟩
    · exact onMessage_aborted d' ha
    · exact hp.onMessage hl hr' d'
  simp only [deliver, List.foldl_append, List.foldl_cons] at ha ⊢
  rw [foldl_of_ended (by simp [ha]), ha]

theorem primed_deliver (ds : List Delivery) (hr : (deliver ds).status = .running)
    (hp : Primed (deliver ds)) : HoldsLine (deliver ds) ∧
      ∃ pre d, ds = pre ++ [d] ∧ (deliver pre).status = .running ∧
        RefusesNamedLine (deliver pre) d := by
  induction ds using List.reverseRecOn with
  | nil => exact absurd rfl hp.2
  | append_singleton pre d ih =>
    rw [deliver_snoc] at hr hp ⊢
    have hpre := running_of_onMessage hr
    obtain ⟨href, hl⟩ := Primed.of_onMessage hpre (fun h => (ih hpre h).1) hr hp
    exact ⟨hl, pre, d, rfl, hpre, href⟩

theorem primed_of_aborts {conn : Connection} {d : Delivery} (hr : conn.status = .running)
    (ha : (conn.onMessage d).status = .aborted) : Primed conn := by
  have hcall := onMessage_call d hr
  generalize conn.onMessage d = conn' at hcall ha
  cases hcall with
  | asserts hs _ hp => exact ⟨hs, (HttpContext.processRequestLine_eq_none.mp hp).2⟩
  | hangs => simp at ha
  | _ => simp [hr] at ha

/-- **The assertion of `setMethod` holds in a run exactly when** no chunk before the last
one completed a request line that names a method and is refused. -/
theorem setMethod_asserts_iff (ds : List Delivery) :
    (deliver ds).status ≠ .aborted ↔ ¬ RefusedEarlier ds := by
  refine ⟨fun h he => h he.aborted, fun h ha => h ?_⟩
  clear h
  -- the last chunk that found the process running is the one that killed it
  induction ds using List.reverseRecOn with
  | nil => simp [deliver] at ha
  | append_singleton ds d ih =>
    by_cases hd : (deliver ds).status = .running
    · rw [deliver_snoc] at ha
      obtain ⟨-, pre, d', rfl, hr, href⟩ := primed_deliver ds hd (primed_of_aborts hd ha)
      exact ⟨pre, d', [d], by simp, by simp, hr, href⟩
    · rw [deliver_snoc, onMessage, if_neg hd] at ha
      obtain ⟨pre, d', rest, rfl, -, hr, href⟩ := ih ha
      exact ⟨pre, d', rest ++ [d], by simp, by simp, hr, href⟩

/-- The line `GET /` sets the method before its missing version is noticed, and it stays in
the buffer: one more byte and `setMethod` runs again. -/
theorem setMethod_asserts_fails :
    ¬ ∀ ds : List Delivery, (deliver ds).status ≠ .aborted := by
  intro h
  exact h [{ chunk := bytes "GET /\r\n" }, { chunk := bytes "x" }] (by decide)

/-! ## Calls that never return -/

/-- These bytes finish the request: a blank line that no body follows, or a whole body. -/
inductive Finishes (ctx : HttpContext) (buf : Bytes) : HttpRequest → Prop where
  | noBody (hs : ctx.state_ = kExpectHeaders) (hf : findCRLF buf = some 0)
      (hm : ¬ (ctx.request_.method_ = .kPost ∨ ctx.request_.method_ = .kPut)) :
      Finishes ctx buf ctx.request_
  | bodyEmpty {n : Int} (hs : ctx.state_ = kExpectHeaders) (hf : findCRLF buf = some 0)
      (hm : ctx.request_.method_ = .kPost ∨ ctx.request_.method_ = .kPut)
      (hl : ctx.request_.getHeader (bytes "Content-Length") ≠ [])
      (hn : stoi (ctx.request_.getHeader (bytes "Content-Length")) = .ok n)
      (hz : toUInt64 n = 0) : Finishes ctx buf (ctx.request_.setContentLength 0)
  | body (hs : ctx.state_ = kExpectBody) (hb : ctx.request_.contentLength_ ≤ buf.length) :
      Finishes ctx buf (ctx.request_.setBody (buf.take ctx.request_.contentLength_))

/-- With this chunk a request is complete, and the callback throws on it. -/
def ThrowsOnRequest (conn : Connection) (d : Delivery) : Prop :=
  ∃ ctx buf req, HttpContext.Rounds d.receiveTime conn.context (conn.inputBuffer ++ d.chunk)
    ctx buf ∧ Finishes ctx buf req ∧ d.callbackThrows req = true

/-- The call of `parseRequest` that this chunk causes returns after some number of rounds. -/
def ParseEnds (conn : Connection) (d : Delivery) : Prop :=
  ∃ fuel, (HttpContext.parseLoop d.receiveTime fuel conn.context
    (conn.inputBuffer ++ d.chunk)).isSome

theorem parseEnds_iff {conn : Connection} {d : Delivery} :
    ParseEnds conn d ↔ conn.context.state_ ≠ kGotAll := by
  constructor
  · rintro ⟨fuel, h⟩ hs
    simp [HttpContext.parseLoop_gotAll d.receiveTime hs] at h
  · intro hs
    refine ⟨(conn.inputBuffer ++ d.chunk).length + 1, Option.isSome_iff_ne_none.mpr fun h => ?_⟩
    exact hs (HttpContext.parseRequest_eq_none.mp h)

theorem Finishes.done {ctx : HttpContext} {buf : Bytes} {req : HttpRequest}
    (h : Finishes ctx buf req) (t : Timestamp) : ∃ rest, HttpContext.parseStep t ctx buf =
      .done (.ret true { state_ := kGotAll, request_ := req } rest) := by
  cases h with
  | noBody hs hf hm => exact ⟨_, (HttpContext.Round.noBody hs hf hm).eq⟩
  | bodyEmpty hs hf hm hl hn hz => exact ⟨_, (HttpContext.Round.bodyEmpty hs hf hm hl hn hz).eq⟩
  | body hs hb => exact ⟨_, (HttpContext.Round.body hs hb).eq⟩

/-- A call leaves its context in `kGotAll` by an exception of the callback, and by nothing
else. -/
theorem onMessage_gotAll_iff {conn : Connection} {d : Delivery} (hr : conn.status = .running)
    (hg : conn.context.state_ ≠ kGotAll) :
    (conn.onMessage d).status = .running ∧ (conn.onMessage d).context.state_ = kGotAll ↔
      ThrowsOnRequest conn d := by
  rw [onMessage, if_pos hr]
  have hthrows {ctx : HttpContext} {buf rest : Bytes} {req : HttpRequest}
      (hrounds : HttpContext.Rounds d.receiveTime conn.context (conn.inputBuffer ++ d.chunk)
        ctx buf) (hf : Finishes ctx buf req)
      (h : (conn.afterParse d (some (.ret true { state_ := kGotAll, request_ := req } rest))
        ).context.state_ = kGotAll) : ThrowsOnRequest conn d := by
    refine ⟨ctx, buf, req, hrounds, hf, ?_⟩
    by_contra hc
    simp [afterParse, HttpContext.gotAll, hc, HttpContext.reset] at h
  constructor
  · rintro ⟨-, h⟩
    rcases hq : conn.context.parseRequest (conn.inputBuffer ++ d.chunk) d.receiveTime with _ | r
    · exact absurd (HttpContext.parseRequest_eq_none.mp hq) hg
    obtain ⟨ctx, buf, hrounds, hd⟩ := HttpContext.parseLoop_rounds hq
    have hgo {c : HttpContext} (hs : c.state_ ≠ kGotAll) : c.gotAll = false := by
      simpa [HttpContext.gotAll] using hs
    rw [hq] at h
    cases hd ▸ HttpContext.parseStep_round d.receiveTime ctx buf with
    | bodyEmpty hs hf hm hl hn hz => exact hthrows hrounds (.bodyEmpty hs hf hm hl hn hz) h
    | noBody hs hf hm => exact hthrows hrounds (.noBody hs hf hm) h
    | body hs hb => exact hthrows hrounds (.body hs hb) h
    | lineAssert => exact absurd h hg
    | @lineRefused i req =>
      simp only [afterParse, hgo (c := { state_ := kExpectRequestLine, request_ := req })
        (by simp)] at h
      cases h
    | waitLine hs =>
      have hs' : ctx.state_ ≠ kGotAll := by rcases hs with hs | hs <;> simp [hs]
      simp only [afterParse, hgo hs'] at h
      exact absurd h hs'
    | lengthThrows hs => exact absurd (hs.symm.trans h) (by decide)
    | headerRefused hs | lengthMissing hs | waitBody hs =>
      have hs' : ctx.state_ ≠ kGotAll := by simp [hs]
      simp only [afterParse, hgo hs'] at h
      exact absurd h hs'
  · rintro ⟨ctx, buf, req, hrounds, hf, hc⟩
    obtain ⟨rest, hd⟩ := hf.done d.receiveTime
    rw [hrounds.parseRequest_eq hg hd]
    simp [afterParse, HttpContext.gotAll, hc, hr]

/-- A chunk that was not the last one and on whose request the callback threw. -/
def ThrewEarlier (ds : List Delivery) : Prop :=
  ∃ pre d rest, ds = pre ++ d :: rest ∧ rest ≠ [] ∧ (deliver pre).status = .running ∧
    ThrowsOnRequest (deliver pre) d

theorem ThrowsOnRequest.state {conn : Connection} {d : Delivery} (h : ThrowsOnRequest conn d) :
    conn.context.state_ ≠ kGotAll := by
  obtain ⟨ctx, buf, req, hr, hf, -⟩ := h
  intro hs
  obtain rfl := hr.eq_of_gotAll hs
  cases hf with
  | noBody hs' | bodyEmpty hs' | body hs' => exact absurd (hs'.symm.trans hs) (by decide)

/-- **The parse loop ends in every call of a run exactly when** the callback threw on no
request that a chunk before the last one completed. -/
theorem parseRequest_ends_iff (ds : List Delivery) :
    (∀ pre d rest, ds = pre ++ d :: rest → (deliver pre).status = .running →
      ParseEnds (deliver pre) d) ↔ ¬ ThrewEarlier ds := by
  simp only [parseEnds_iff]
  constructor
  · rintro h ⟨pre, d, rest, rfl, hne, hr, ht⟩
    obtain ⟨d', rest', rfl⟩ := List.exists_cons_of_ne_nil hne
    obtain ⟨hr', hs'⟩ := (onMessage_gotAll_iff hr ht.state).mpr ht
    rw [← deliver_snoc] at hr' hs'
    exact h (pre ++ [d]) d' rest' (by simp) hr' hs'
  · intro h pre d rest hds hr hs
    -- the chunk before this one left `kGotAll` behind, and it did not hang
    obtain rfl | ⟨pre', d', rfl⟩ := List.eq_nil_or_concat pre
    · simp [deliver] at hs
    rw [List.concat_eq_append, deliver_snoc] at hr hs
    have hr' := running_of_onMessage hr
    have hg : (deliver pre').context.state_ ≠ kGotAll := by
      intro hg
      rw [onMessage, if_pos hr', HttpContext.parseRequest_eq_none.mpr hg] at hr
      simp [afterParse] at hr
    have ht := (onMessage_gotAll_iff hr' hg).mp ⟨hr, hs⟩
    exact h ⟨pre', d', d :: rest, by simp [hds], by simp, hr', ht⟩

/-- A finished request on which the callback threw is never reset: the next byte sends the
loop round for ever. -/
theorem parseRequest_hangs :
    ¬ ∀ ds : List Delivery, ∀ pre d rest, ds = pre ++ d :: rest →
      (deliver pre).status = .running → ParseEnds (deliver pre) d := by
  intro h
  let get : Delivery :=
    { chunk := bytes "GET / HTTP/1.1\r\n\r\n"
      callbackThrows := fun _ => true }
  have hends := h [get, { chunk := bytes "x" }] [get] { chunk := bytes "x" } [] rfl (by decide)
  rw [parseEnds_iff] at hends
  exact hends (by decide)

end Connection
end Workplace.Http
