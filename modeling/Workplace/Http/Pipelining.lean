import Workplace.Http.KeepAlive
import Workplace.Http.Connection
import Workplace.Lib.Arrivals

/-! Requests sent without waiting for the answers. A call of `onMessage` parses one request
at most; what is behind it in the buffer stays there until more bytes arrive. -/

namespace Workplace.Http
namespace Connection
open HttpRequestParseState Workplace.Lib
open HttpContext (parser feed stale leak WellFormed)

/-- The requests that the callback was invoked on, in order, their times of receipt left
out. -/
def handedOver (conn : Connection) : List HttpRequest :=
  conn.calls.flatten.filterMap fun
    | .badRequest => none
    | .onRequest req => some req.forgetTime

/-- What the callback gets from a client that sends a request whole, and the next one after
the answer. -/
def oneByOne (ctx : HttpContext) : List Bytes → List HttpRequest
  | [] => []
  | r :: rs =>
    let ctx' := (feed ctx [] [(r, 0)]).context
    ctx'.request_.forgetTime :: oneByOne ctx'.reset rs

theorem oneByOne_eq_nil {ctx : HttpContext} {reqs : List Bytes} :
    oneByOne ctx reqs = [] ↔ reqs = [] := by
  cases reqs <;> simp [oneByOne]

/-- The bytes `held` have arrived since the last request was handed over. Some of them may
be parsed already, but the next call goes on as if the parser saw them only now. -/
structure Awaits (conn : Connection) (ctx : HttpContext) (held : Bytes) : Prop where
  running : conn.status = .running
  state : conn.context.state_ ≠ kGotAll
  parse : ∀ c, parser.runLoop conn.context.forgetTime (conn.inputBuffer ++ c) =
    parser.runLoop ctx (held ++ c)

section
variable {conn : Connection} {ctx : HttpContext} {held : Bytes} {d : Delivery}

theorem Awaits.parseRequest (h : Awaits conn ctx held) (d : Delivery) :
    (conn.context.parseRequest (conn.inputBuffer ++ d.chunk) d.receiveTime).map
      HttpContext.ParseResult.forgetTime =
        some (HttpContext.resultOf (parser.runLoop ctx (held ++ d.chunk))) := by
  rw [← h.parse]
  exact HttpContext.parseLoop_eq h.state (Nat.lt_succ_self _)

theorem forgetTime_eq_ret {r : HttpContext.ParseResult} {ok : Bool} {c : HttpContext}
    {buf : Bytes} (h : r.forgetTime = .ret ok c buf) :
    ∃ c', r = .ret ok c' buf ∧ c'.forgetTime = c := by
  cases r with
  | ret ok' c' buf' =>
    simp only [HttpContext.ParseResult.forgetTime, HttpContext.ParseResult.ret.injEq] at h
    obtain ⟨rfl, rfl, rfl⟩ := h
    exact ⟨c', rfl, rfl⟩
  | throw => simp [HttpContext.ParseResult.forgetTime] at h
  | abort => simp [HttpContext.ParseResult.forgetTime] at h

theorem Awaits.wait (h : Awaits conn ctx held)
    (hn : (parser.runLoop ctx (held ++ d.chunk)).1 = none) :
    Awaits (conn.onMessage d) ctx (held ++ d.chunk) ∧
      (conn.onMessage d).handedOver = conn.handedOver := by
  have hp := h.parseRequest d
  rcases hr : parser.runLoop ctx (held ++ d.chunk) with ⟨_ | v, s, buf⟩
  swap
  · simp [hr] at hn
  rw [hr, Option.map_eq_some_iff] at hp
  obtain ⟨r, hq, hp⟩ := hp
  obtain ⟨c, rfl, rfl⟩ := forgetTime_eq_ret hp
  have hstate : c.state_ ≠ kGotAll := (HttpContext.turn_starve (parser.runLoop_none hr)).1
  have hgo : c.gotAll = false := by simpa [HttpContext.gotAll] using hstate
  rw [onMessage, if_pos h.running, hq]
  simp only [afterParse, hgo]
  refine ⟨⟨h.running, hstate, fun x => ?_⟩, by simp [handedOver]⟩
  have happ := parser.runLoop_append ctx (held ++ d.chunk) x
  rw [hr] at happ
  exact happ.symm

theorem runLoop_part {r part more : Bytes} (hw : WellFormed [(r, 0)]) (n : Nat) (b : Bytes)
    (hr : r = part ++ more) (hne : more ≠ []) : (parser.runLoop (stale n b) part).1 = none := by
  have hwhole := (HttpContext.requestRun hw.run).2.2 n b
  have happ := parser.runLoop_append (stale n b) part more
  have hbytes : ([(r, (0 : Timestamp))].map Prod.fst).flatten = part ++ more := by simp [hr]
  rw [← hbytes, hwhole] at happ
  rcases hp : parser.runLoop (stale n b) part with ⟨_ | v, s, buf⟩
  · rfl
  · -- an answer would leave the rest of the request unread
    rw [hp] at happ
    simp [hne] at happ

/-- The call that finds a whole request hands it over, as the client that waits would have
seen it, and leaves the bytes behind it in the buffer. -/
theorem Awaits.parse_whole {n : Nat} {b r rest : Bytes} (h : Awaits conn (stale n b) held)
    (hw : WellFormed [(r, 0)]) (hb : held ++ d.chunk = r ++ rest) :
    ∃ c, conn.context.parseRequest (conn.inputBuffer ++ d.chunk) d.receiveTime =
        some (.ret true c rest) ∧ c.state_ = kGotAll ∧
      c.request_.forgetTime =
        (feed (stale n b) [] [(r, 0)]).context.request_.forgetTime := by
  have hrun := hw.run
  have hwhole := (HttpContext.requestRun hrun).2.2 n b
  have hbytes : ([(r, (0 : Timestamp))].map Prod.fst).flatten = r := by simp
  rw [hbytes] at hwhole
  have hp := h.parseRequest d
  rw [hb, parser.runLoop_append, hwhole, Option.map_eq_some_iff] at hp
  obtain ⟨res, hq, hp⟩ := hp
  obtain ⟨c, rfl, hc⟩ := forgetTime_eq_ret hp
  refine ⟨c, by simpa using hq, ?_, ?_⟩
  · have hs := congrArg HttpContext.state_ hc
    exact hs.trans (HttpContext.runLoop_complete hwhole)
  · have hreq := congrArg HttpContext.request_ hc
    exact hreq.trans (hw.feed_stale n b).2.1.symm

theorem Awaits.serve {n : Nat} {b r rest : Bytes} (h : Awaits conn (stale n b) held)
    (hw : WellFormed [(r, 0)]) (hb : held ++ d.chunk = r ++ rest) :
    (conn.onMessage d).handedOver = conn.handedOver ++
        [(feed (stale n b) [] [(r, 0)]).context.request_.forgetTime] ∧
      ((conn.onMessage d).status = .running ∧ (conn.onMessage d).context.state_ = kGotAll ∨
        Awaits (conn.onMessage d) (feed (stale n b) [] [(r, 0)]).context.reset rest) := by
  obtain ⟨c, hq, hs, hreq⟩ := h.parse_whole hw hb
  have hgo : c.gotAll = true := by simpa [HttpContext.gotAll] using hs
  have hreset : c.reset = (feed (stale n b) [] [(r, 0)]).context.reset := by
    have hl := congrArg HttpRequest.contentLength_ hreq
    have hc := congrArg HttpRequest.content_ hreq
    change stale c.request_.contentLength_ c.request_.content_ = stale _ _
    rw [show c.request_.contentLength_ = _ from hl, show c.request_.content_ = _ from hc]
    rfl
  rw [onMessage, if_pos h.running, hq]
  simp only [afterParse, hgo, if_true, List.nil_append]
  split_ifs
  · exact ⟨by simp [handedOver, hreq], .inl ⟨h.running, hs⟩⟩
  · refine ⟨by simp [handedOver, hreq], .inr ⟨h.running, by simp [HttpContext.reset], fun x => ?_⟩⟩
    dsimp only
    rw [hreset]
    rfl

/-- A chunk before the last of these on whose request the callback throws. -/
def ThrowsBeforeLast (conn : Connection) (ds : List Delivery) : Prop :=
  ∃ pre d rest, ds = pre ++ d :: rest ∧ rest ≠ [] ∧ (pre.foldl onMessage conn).status = .running ∧
    ThrowsOnRequest (pre.foldl onMessage conn) d

theorem throwsBeforeLast_cons {ds : List Delivery} : ThrowsBeforeLast conn (d :: ds) ↔
    ds ≠ [] ∧ conn.status = .running ∧ ThrowsOnRequest conn d ∨
      ThrowsBeforeLast (conn.onMessage d) ds := by
  constructor
  · rintro ⟨_ | ⟨d₀, pre⟩, d', rest, he, hne, hr, ht⟩
    · obtain ⟨rfl, rfl⟩ := List.cons.inj he
      exact .inl ⟨hne, hr, ht⟩
    · obtain ⟨rfl, rfl⟩ := List.cons.inj he
      exact .inr ⟨pre, d', rest, rfl, hne, hr, ht⟩
  · rintro (⟨hne, hr, ht⟩ | ⟨pre, d', rest, rfl, hne, hr, ht⟩)
    · exact ⟨[], d, ds, rfl, hne, hr, ht⟩
    · exact ⟨d :: pre, d', rest, rfl, hne, hr, ht⟩

theorem Awaits.throws_iff (h : Awaits conn ctx held) : ThrowsOnRequest conn d ↔
    (conn.onMessage d).status = .running ∧ (conn.onMessage d).context.state_ = kGotAll :=
  (onMessage_gotAll_iff h.running h.state).symm

theorem foldl_of_gotAll {ds : List Delivery} (hr : conn.status = .running)
    (hs : conn.context.state_ = kGotAll) (hne : ds ≠ []) :
    (ds.foldl onMessage conn).status = .hung := by
  obtain ⟨d, ds, rfl⟩ := List.exists_cons_of_ne_nil hne
  have hh : (conn.onMessage d).status = .hung := by
    rw [onMessage, if_pos hr, HttpContext.parseRequest_eq_none.mpr hs]
    rfl
  rw [List.foldl_cons, foldl_of_ended (by simp [hh]), hh]

/-- The first request, and the bytes that are there: it is whole, or a part of it is
missing. -/
theorem whole_or_part {x y r s : Bytes} (h : x ++ y = r ++ s) :
    (r.length ≤ x.length ∧ ∃ rest, x = r ++ rest ∧ rest ++ y = s) ∨
      (x.length < r.length ∧ ∃ more, r = x ++ more ∧ more ≠ []) := by
  rcases List.append_eq_append_iff.mp h with ⟨more, rfl, rfl⟩ | ⟨rest, rfl, rfl⟩
  · cases more with
    | nil => exact .inl ⟨by simp, [], by simp, rfl⟩
    | cons m more => exact .inr ⟨by simp, m :: more, rfl, by simp⟩
  · exact .inl ⟨by simp, rest, rfl, rfl⟩

theorem Awaits.foldl_served_iff {n : Nat} {b : Bytes} {reqs : List Bytes} {ds : List Delivery}
    (h : Awaits conn (stale n b) held) (hw : ∀ r ∈ reqs, WellFormed [(r, 0)])
    (hcut : held ++ (ds.map Delivery.chunk).flatten = reqs.flatten) :
    (ds.foldl onMessage conn).status = .running ∧ (ds.foldl onMessage conn).handedOver =
        conn.handedOver ++ oneByOne (stale n b) reqs ↔
      ¬ ThrowsBeforeLast conn ds ∧ unserved (reqs.map List.length) held.length
        (ds.map fun d => d.chunk.length) = [] := by
  induction ds generalizing conn held n b reqs with
  | nil =>
    have hno : ¬ ThrowsBeforeLast conn [] := by simp [ThrowsBeforeLast]
    simp [h.running, oneByOne_eq_nil, unserved, hno]
  | cons d ds ih =>
    rw [List.map_cons, List.flatten_cons, ← List.append_assoc] at hcut
    rw [List.foldl_cons, throwsBeforeLast_cons]
    -- a call that completes nothing
    have hwait (hn : (parser.runLoop (stale n b) (held ++ d.chunk)).1 = none) :
        (ds.foldl onMessage (conn.onMessage d)).status = .running ∧
            (ds.foldl onMessage (conn.onMessage d)).handedOver =
              conn.handedOver ++ oneByOne (stale n b) reqs ↔
          ¬ (ds ≠ [] ∧ conn.status = .running ∧ ThrowsOnRequest conn d ∨
              ThrowsBeforeLast (conn.onMessage d) ds) ∧
            unserved (reqs.map List.length) (held.length + d.chunk.length)
              (ds.map fun d => d.chunk.length) = [] := by
      obtain ⟨h', hsame⟩ := h.wait hn
      have hno : ¬ ThrowsOnRequest conn d := fun ht => h'.state (h.throws_iff.mp ht).2
      have := ih h' hw hcut
      rw [hsame, List.length_append] at this
      simpa only [hno, and_false, false_or] using this
    cases reqs with
    | nil =>
      have hnil : held ++ d.chunk = [] := by
        simp only [List.flatten_nil, List.append_eq_nil_iff] at hcut ⊢
        exact hcut.1
      exact hwait (by rw [hnil]; rfl)
    | cons r reqs =>
      rw [List.flatten_cons] at hcut
      rw [List.map_cons, List.map_cons, unserved]
      have hr := hw r (by simp)
      rcases whole_or_part hcut with ⟨hle, rest, hb, hrest⟩ | ⟨hlt, more, hm, hne⟩
      swap
      · rw [if_neg (by rw [List.length_append] at hlt; omega)]
        exact hwait (runLoop_part hr n b hm hne)
      rw [if_pos (by rw [List.length_append] at hle; omega), oneByOne]
      obtain ⟨hsame, hs | h'⟩ := h.serve hr hb
      · -- the callback threw: fine if this was the last chunk
        have ht := h.throws_iff.mpr hs
        by_cases hne : ds = []
        · subst hne
          simp [hs.1, hsame, oneByOne_eq_nil, unserved, ThrowsBeforeLast]
        · have hhung := foldl_of_gotAll hs.1 hs.2 hne
          simp [hhung, hne, h.running, ht]
      · have hno : ¬ ThrowsOnRequest conn d := fun ht => h'.state (h.throws_iff.mp ht).2
        have hlen : held.length + d.chunk.length - r.length = rest.length := by
          rw [← List.length_append, hb, List.length_append, Nat.add_sub_cancel_left]
        have hrec := ih h' (fun q hq => hw q (by simp [hq])) hrest
        rw [hsame, List.append_assoc, List.singleton_append] at hrec
        rw [hlen]
        simp only [hno, and_false, false_or]
        exact hrec

end

theorem awaits_fresh : Awaits {} (stale 0 []) [] := ⟨rfl, by decide, fun _ => rfl⟩

/-- **Every request is served exactly when** the callback throws on no request before the
last chunk, and for no `k` the last `k` chunks hold more bytes than the last `k` requests:
a request whose bytes came along with earlier ones needs a chunk behind it. -/
theorem all_served_iff (reqs : List Bytes) (ds : List Delivery)
    (hw : ∀ r ∈ reqs, WellFormed [(r, 0)])
    (hcut : (ds.map Delivery.chunk).flatten = reqs.flatten) :
    (deliver ds).status = .running ∧ (deliver ds).handedOver = oneByOne {} reqs ↔
      ¬ ThrewEarlier ds ∧
        Spread (reqs.map List.length) (ds.map fun d => d.chunk.length) := by
  have hpos : ∀ j ∈ reqs.map List.length, 0 < j := by
    intro j hj
    obtain ⟨r, hr, rfl⟩ := List.mem_map.mp hj
    refine List.length_pos_of_ne_nil fun hnil => ?_
    have := hw r hr
    rw [hnil] at this
    exact absurd this (by decide)
  have hsum : (ds.map fun d => d.chunk.length).sum = (reqs.map List.length).sum := by
    have hlen := congrArg List.length hcut
    rw [List.length_flatten, List.length_flatten, List.map_map] at hlen
    exact hlen
  rw [← unserved_eq_nil_iff hpos hsum]
  exact awaits_fresh.foldl_served_iff hw hcut

/-- Two requests in one chunk: the second one is left lying in the buffer. -/
theorem pipelined_request_unserved :
    ¬ ∀ (reqs : List Bytes) (ds : List Delivery), (∀ r ∈ reqs, WellFormed [(r, 0)]) →
      (∀ d ∈ ds, ∀ req, d.callbackThrows req = false) →
      (ds.map Delivery.chunk).flatten = reqs.flatten →
      (deliver ds).handedOver = oneByOne {} reqs := by
  intro h
  let get := bytes "GET / HTTP/1.1\r\n\r\n"
  have hone := h [get, get] [{ chunk := get ++ get }] (by decide) (by simp) (by simp)
  have hlen := congrArg List.length hone
  revert hlen
  decide

/-- The second request comes with the first but for its last two bytes: the chunk that
brings them serves it. -/
theorem all_served_iff_two_chunks :
    let get := bytes "GET / HTTP/1.1\r\n\r\n"
    let ds : List Delivery := [{ chunk := get ++ bytes "GET / HTTP/1.1\r\n" },
      { chunk := bytes "\r\n" }]
    WellFormed [(get, 0)] ∧ (ds.map Delivery.chunk).flatten = [get, get].flatten ∧
      (deliver ds).handedOver = oneByOne {} [get, get] ∧ ¬ ThrewEarlier ds ∧
      Spread ([get, get].map List.length) (ds.map fun d => d.chunk.length) := by
  intro get ds
  have hget : WellFormed [(get, 0)] := by decide
  have hcut : (ds.map Delivery.chunk).flatten = [get, get].flatten := by decide
  have hserved : (deliver ds).handedOver = oneByOne {} [get, get] := by decide
  have hiff := all_served_iff [get, get] ds (by simp [hget]) hcut
  exact ⟨hget, hcut, hserved, hiff.mp ⟨by decide, hserved⟩⟩

end Connection
end Workplace.Http
