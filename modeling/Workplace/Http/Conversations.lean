import Workplace.Http.Pipelining
import Workplace.Http.ResponseStream
import Workplace.Lib.SideBySide

/-! `HttpServer` with all its plain connections. Bytes arrive on them in any order, one call of
`onMessage` after the other; a server that is given whole requests does the same. -/

namespace Workplace.Http
open HttpRequestParseState Workplace.Lib
open HttpContext (parser feed stale WellFormed)

/-! ## The connections -/

/-- Bytes on a connection. -/
abbrev Arrival := ℕ × Bytes × Timestamp

/-- A connection that `onConnection` has given a context, as muduo keeps it: after `shutdown`
bytes still arrive, but what is sent is dropped. -/
structure TcpConnection where
  http : Connection := {}
  connected : Bool := true
  output : Bytes := []

namespace TcpConnection

def send (conn : TcpConnection) (text : Bytes) : TcpConnection :=
  if conn.connected then { conn with output := conn.output ++ text } else conn

def shutdown (conn : TcpConnection) : TcpConnection := { conn with connected := false }

/-- The end of `onRequest`. -/
def answer (conn : TcpConnection) (sent : Sent) : TcpConnection :=
  let conn := conn.send sent.bytes
  if sent.shutdown then conn.shutdown else conn

end TcpConnection

structure HttpServer (τ : Type) where
  app : τ
  connections : ℕ → TcpConnection := fun _ => {}
  -- of the process, which is over for every connection at once
  status : Status := .running

namespace Connection

/-- `handleRequest` catches every exception, and so the callback does not throw. -/
def arrives (conn : Connection) (a : Bytes × Timestamp) : Connection :=
  conn.onMessage { chunk := a.1, receiveTime := a.2 }

/-- What the call does. -/
def events (conn : Connection) (a : Bytes × Timestamp) : List Event :=
  ((conn.arrives a).calls.drop conn.calls.length).flatten

end Connection

def Event.request? : Event → Option HttpRequest
  | .badRequest => none
  | .onRequest req => some req

namespace HttpServer
variable {τ : Type} (httpCallback_ : HttpRequest → Exchange τ → Exchange τ)

def setConnection (s : HttpServer τ) (c : ℕ) (conn : TcpConnection) : HttpServer τ :=
  { s with connections := Function.update s.connections c conn }

def perform (c : ℕ) (s : HttpServer τ) : Event → HttpServer τ
  | .badRequest =>
    s.setConnection c ((s.connections c).send (bytes "HTTP/1.1 400 Bad Request\r\n\r\n")).shutdown
  | .onRequest req =>
    let (sent, app) := onRequest httpCallback_ req s.app
    { s with app }.setConnection c ((s.connections c).answer sent)

/-- The context of the connection after the call. -/
def parse (s : HttpServer τ) (a : Arrival) : HttpServer τ :=
  let conn := s.connections a.1
  let http := conn.http.arrives a.2
  { s with status := http.status }.setConnection a.1 { conn with http }

def onMessage (s : HttpServer τ) (a : Arrival) : HttpServer τ :=
  if s.status = .running then
    ((s.connections a.1).http.events a.2).foldl (perform httpCallback_ a.1) (s.parse a)
  else s

end HttpServer

/-! ## Whole requests -/

/-- A server as its clients think of it: it takes whole requests, one at a time, and keeps the
responses for each client. -/
structure Desk (τ : Type) where
  app : τ
  answers : ℕ → List HttpResponse := fun _ => []

def Desk.serve {τ : Type} (httpCallback_ : HttpRequest → Exchange τ → Exchange τ) (desk : Desk τ)
    (r : ℕ × HttpRequest) : Desk τ :=
  let x := exchange httpCallback_ desk.app r.2
  { app := x.server
    answers := Function.update desk.answers r.1 (desk.answers r.1 ++ [x.resp]) }

/-- The responses that reach the client: none after the one that closes the connection. -/
def upToClose : List HttpResponse → List HttpResponse
  | [] => []
  | resp :: resps => resp :: if resp.closeConnection_ then [] else upToClose resps

def keepsOpen (resps : List HttpResponse) : Bool := resps.all fun resp => !resp.closeConnection_

theorem keepsOpen_cons (resp : HttpResponse) (resps : List HttpResponse) :
    keepsOpen (resp :: resps) = (!resp.closeConnection_ && keepsOpen resps) := List.all_cons

theorem upToClose_snoc (resps : List HttpResponse) (resp : HttpResponse) :
    upToClose (resps ++ [resp]) =
      if keepsOpen resps then upToClose resps ++ [resp] else upToClose resps := by
  induction resps with
  | nil =>
    change resp :: (if resp.closeConnection_ then [] else []) = [resp]
    rw [ite_self]
  | cons first resps ih =>
    rw [List.cons_append, upToClose, upToClose, keepsOpen_cons, ih]
    cases first.closeConnection_ with
    | true => rfl
    | false =>
      simp only [Bool.false_eq_true, if_false, Bool.not_false, Bool.true_and, List.cons_append]
      exact apply_ite (List.cons first) _ _ _

theorem keepsOpen_snoc (resps : List HttpResponse) (resp : HttpResponse) :
    keepsOpen (resps ++ [resp]) = (keepsOpen resps && !resp.closeConnection_) := by
  rw [keepsOpen, List.all_append, List.all_cons, List.all_nil, Bool.and_true]
  rfl

/-! ## What one call does -/

namespace Connection
variable {conn : Connection} {a : Bytes × Timestamp}

/-- The process goes on, and no bytes of the connection were refused. -/
def Calm (conn : Connection) : Prop :=
  conn.status = .running ∧ ∀ events ∈ conn.calls, Event.badRequest ∉ events

theorem calls_arrives (hr : conn.status = .running) :
    (conn.arrives a).calls = conn.calls ++ [conn.events a] := by
  obtain ⟨events, he⟩ := onMessage_calls { chunk := a.1, receiveTime := a.2 } hr
  have harrives : (conn.arrives a).calls = conn.calls ++ [events] := he
  rw [Connection.events, harrives, List.drop_left, List.flatten_singleton]

theorem Calm.of_arrives (h : (conn.arrives a).Calm) :
    conn.Calm ∧ Event.badRequest ∉ conn.events a := by
  obtain ⟨hstatus, hcalls⟩ := h
  have hr := running_of_onMessage hstatus
  rw [calls_arrives hr] at hcalls
  constructor
  · exact ⟨hr, fun events hmem => hcalls events (List.mem_append_left _ hmem)⟩
  · exact hcalls _ List.mem_concat_self

theorem Calm.of_foldl {as : List (Bytes × Timestamp)} (h : (as.foldl arrives conn).Calm) :
    conn.Calm := by
  induction as generalizing conn with
  | nil => exact h
  | cons a as ih => exact (ih h).of_arrives.1

/-- The call as the rest of the server sees it. -/
def receive (conn : Connection) (a : Bytes × Timestamp) : Connection × List HttpRequest :=
  (conn.arrives a, (conn.events a).filterMap Event.request?)

end Connection

namespace TcpConnection
variable {conn : TcpConnection} {resps : List HttpResponse}

/-- These responses are what the connection was given to send. -/
structure Answered (conn : TcpConnection) (resps : List HttpResponse) : Prop where
  connected : conn.connected = keepsOpen resps
  output : conn.output = (upToClose resps).flatMap HttpResponse.appendToBuffer

theorem Answered.answer (h : Answered conn resps) (resp : HttpResponse) :
    Answered (conn.answer ⟨resp.appendToBuffer, resp.closeConnection_⟩) (resps ++ [resp]) := by
  obtain ⟨hconnected, houtput⟩ := h
  have hsend : (conn.send resp.appendToBuffer).connected = keepsOpen resps ∧
      (conn.send resp.appendToBuffer).output =
        (upToClose (resps ++ [resp])).flatMap HttpResponse.appendToBuffer := by
    rw [upToClose_snoc, send]
    cases hopen : keepsOpen resps with
    | true =>
      rw [if_pos (hconnected.trans hopen), houtput, if_pos rfl, List.flatMap_append,
        List.flatMap_singleton]
      exact ⟨hconnected.trans hopen, rfl⟩
    | false =>
      have hclosed : conn.connected = false := hconnected.trans hopen
      rw [if_neg (by simp [hclosed]), if_neg Bool.false_ne_true]
      exact ⟨hclosed, houtput⟩
  unfold TcpConnection.answer
  constructor
  · rw [keepsOpen_snoc, ← hsend.1]
    cases resp.closeConnection_ with
    | true => exact (Bool.and_false _).symm
    | false => exact (Bool.and_true _).symm
  · rw [← hsend.2]
    cases resp.closeConnection_ <;> rfl

theorem http_send (text : Bytes) : (conn.send text).http = conn.http := by
  unfold send
  split_ifs <;> rfl

theorem http_answer (sent : Sent) : (conn.answer sent).http = conn.http := by
  have hsend : (conn.send sent.bytes).http = conn.http := http_send sent.bytes
  unfold answer
  cases sent.shutdown <;> exact hsend

end TcpConnection

namespace HttpServer
variable {τ : Type} {httpCallback_ : HttpRequest → Exchange τ → Exchange τ} {s : HttpServer τ}
  {desk : Desk τ}

/-- What the server has done is what the desk has, and each connection was given the answers
that the desk keeps for it. -/
structure Matches (s : HttpServer τ) (desk : Desk τ) : Prop where
  app : s.app = desk.app
  answered : ∀ c, (s.connections c).Answered (desk.answers c)

def parsers (s : HttpServer τ) (c : ℕ) : Connection := (s.connections c).http

theorem parsers_setConnection (c : ℕ) (conn : TcpConnection) :
    (s.setConnection c conn).parsers = Function.update s.parsers c conn.http :=
  funext (Function.apply_update (fun _ => TcpConnection.http) s.connections c conn)

theorem parsers_perform (c : ℕ) (e : Event) :
    (perform httpCallback_ c s e).parsers = s.parsers := by
  cases e with
  | badRequest =>
    rw [perform, parsers_setConnection]
    apply Function.update_eq_iff.mpr
    exact ⟨TcpConnection.http_send _, fun _ _ => rfl⟩
  | onRequest req =>
    rw [perform, parsers_setConnection]
    apply Function.update_eq_iff.mpr
    exact ⟨TcpConnection.http_answer _, fun _ _ => rfl⟩

theorem status_perform (c : ℕ) (e : Event) :
    (perform httpCallback_ c s e).status = s.status := by
  cases e <;> rfl

theorem foldl_perform (c : ℕ) (es : List Event) :
    (es.foldl (perform httpCallback_ c) s).parsers = s.parsers ∧
      (es.foldl (perform httpCallback_ c) s).status = s.status := by
  induction es generalizing s with
  | nil => exact ⟨rfl, rfl⟩
  | cons e es ih =>
    rw [List.foldl_cons, ih.1, ih.2, parsers_perform, status_perform]
    exact ⟨rfl, rfl⟩

theorem Matches.onRequest (h : Matches s desk) (c : ℕ) (req : HttpRequest) :
    Matches (perform httpCallback_ c s (.onRequest req)) (desk.serve httpCallback_ (c, req)) := by
  obtain ⟨app, connections, status⟩ := s
  obtain ⟨rfl, hanswered⟩ := h
  refine ⟨rfl, fun c' => ?_⟩
  by_cases hc : c' = c
  · subst hc
    have hanswer := (hanswered c').answer (exchange httpCallback_ desk.app req).resp
    simp only [perform, setConnection, Desk.serve, Function.update_self]
    exact hanswer
  · simp only [perform, setConnection, Desk.serve, Function.update_of_ne hc]
    exact hanswered c'

theorem Matches.foldl_perform {es : List Event} (h : Matches s desk) (c : ℕ)
    (hno : Event.badRequest ∉ es) : Matches (es.foldl (perform httpCallback_ c) s)
      (((es.filterMap Event.request?).map (Prod.mk c)).foldl (Desk.serve httpCallback_) desk) := by
  induction es generalizing s desk with
  | nil => exact h
  | cons e es ih =>
    rw [List.mem_cons, not_or] at hno
    cases e with
    | badRequest => exact absurd rfl hno.1
    | onRequest req => exact ih (h.onRequest c req) hno.2

theorem parsers_onMessage (hs : s.status = .running) (a : Arrival) :
    (onMessage httpCallback_ s a).parsers = (stepAt Connection.receive s.parsers a).1 := by
  rw [onMessage, if_pos hs, (foldl_perform _ _).1, parse, parsers_setConnection]
  rfl

theorem status_onMessage (hs : s.status = .running) (a : Arrival) :
    (onMessage httpCallback_ s a).status = ((s.parsers a.1).arrives a.2).status := by
  rw [onMessage, if_pos hs, (foldl_perform _ _).2]
  rfl

theorem Matches.parse (h : Matches s desk) (a : Arrival) : Matches (s.parse a) desk := by
  refine ⟨h.app, fun c => ?_⟩
  by_cases hc : c = a.1
  · subst hc
    have hanswered := h.answered a.1
    simp only [HttpServer.parse, setConnection, Function.update_self]
    exact ⟨hanswered.connected, hanswered.output⟩
  · simp only [HttpServer.parse, setConnection, Function.update_of_ne hc]
    exact h.answered c

theorem Matches.onMessage (h : Matches s desk) (hs : s.status = .running) (a : Arrival)
    (hno : Event.badRequest ∉ (s.parsers a.1).events a.2) :
    Matches (onMessage httpCallback_ s a)
      ((stepAt Connection.receive s.parsers a).2.foldl (Desk.serve httpCallback_) desk) := by
  rw [HttpServer.onMessage, if_pos hs]
  exact (h.parse a).foldl_perform a.1 hno

/-- **The server refines the desk**: where every connection is calm, bytes that arrive in any
order are as good as the requests they complete, one at a time. -/
theorem Matches.run {arrivals : List Arrival} (h : Matches s desk) (hs : s.status = .running)
    (hcalm : ∀ c, ((ownTurns c arrivals).foldl Connection.arrives (s.parsers c)).Calm) :
    (arrivals.foldl (HttpServer.onMessage httpCallback_) s).status = .running ∧
      Matches (arrivals.foldl (HttpServer.onMessage httpCallback_) s)
        ((outputs (stepAt Connection.receive) s.parsers arrivals).foldl
          (Desk.serve httpCallback_) desk) := by
  induction arrivals generalizing s desk with
  | nil => exact ⟨hs, h⟩
  | cons a arrivals ih =>
    have hparsers := @parsers_onMessage τ httpCallback_ s hs a
    have hown := hcalm a.1
    rw [ownTurns_cons, if_pos rfl, List.foldl_cons] at hown
    obtain ⟨-, hno⟩ := hown.of_foldl.of_arrives
    rw [List.foldl_cons, outputs, List.foldl_append, ← hparsers]
    apply ih (h.onMessage hs a hno)
    · rw [status_onMessage hs]
      exact hown.of_foldl.1
    · intro c
      rw [hparsers]
      have hc := hcalm c
      rw [ownTurns_cons] at hc
      by_cases hac : a.1 = c
      · subst hac
        rw [if_pos rfl] at hc
        change ((ownTurns a.1 arrivals).foldl _ (Function.update s.parsers a.1 _ a.1)).Calm
        rw [Function.update_self]
        exact hc
      · rw [if_neg hac] at hc
        change ((ownTurns c arrivals).foldl _ (Function.update s.parsers a.1 _ c)).Calm
        rw [Function.update_of_ne (Ne.symm hac)]
        exact hc

end HttpServer

/-! ## Well-formed requests on one connection -/

namespace Connection
variable {conn : Connection} {ctx : HttpContext} {held : Bytes} {a : Bytes × Timestamp}

theorem Calm.arrives (h : conn.Calm) (hs : (conn.arrives a).status = .running)
    (hno : Event.badRequest ∉ conn.events a) : (conn.arrives a).Calm := by
  refine ⟨hs, fun events hmem => ?_⟩
  rw [calls_arrives h.1, List.mem_append, List.mem_singleton] at hmem
  rcases hmem with hmem | rfl
  · exact h.2 events hmem
  · exact hno

theorem events_of_calls {es : List Event} (h : (conn.arrives a).calls = conn.calls ++ [es]) :
    conn.events a = es := by
  rw [events, h, List.drop_left, List.flatten_singleton]

theorem Awaits.events_wait (h : Awaits conn ctx held)
    (hn : (parser.runLoop ctx (held ++ a.1)).1 = none) : conn.events a = [] := by
  have hp := h.parseRequest { chunk := a.1, receiveTime := a.2 }
  rcases hr : parser.runLoop ctx (held ++ a.1) with ⟨_ | v, s, buf⟩
  swap
  · simp [hr] at hn
  rw [hr, Option.map_eq_some_iff] at hp
  obtain ⟨r, hq, hp⟩ := hp
  obtain ⟨c, rfl, rfl⟩ := forgetTime_eq_ret hp
  have hstate : c.state_ ≠ kGotAll := (HttpContext.turn_starve (parser.runLoop_none hr)).1
  have hgo : c.gotAll = false := by simpa [HttpContext.gotAll] using hstate
  apply events_of_calls
  rw [Connection.arrives, onMessage, if_pos h.running, hq]
  simp only [afterParse, hgo]
  rfl

theorem Awaits.events_serve {n : Nat} {b r rest : Bytes} (h : Awaits conn (stale n b) held)
    (hw : WellFormed [(r, 0)]) (hb : held ++ a.1 = r ++ rest) :
    ∃ req, conn.events a = [.onRequest req] ∧
      req.forgetTime = (feed (stale n b) [] [(r, 0)]).context.request_.forgetTime := by
  obtain ⟨c, hq, hs, hreq⟩ := h.parse_whole (d := { chunk := a.1, receiveTime := a.2 }) hw hb
  have hgo : c.gotAll = true := by simpa [HttpContext.gotAll] using hs
  refine ⟨c.request_, events_of_calls ?_, hreq⟩
  rw [Connection.arrives, onMessage, if_pos h.running, hq]
  simp only [afterParse, hgo]
  rfl

theorem Awaits.arrives_serve {n : Nat} {b r rest : Bytes} (h : Awaits conn (stale n b) held)
    (hw : WellFormed [(r, 0)]) (hb : held ++ a.1 = r ++ rest) :
    Awaits (conn.arrives a) (feed (stale n b) [] [(r, 0)]).context.reset rest := by
  obtain ⟨-, hs | h'⟩ := h.serve (d := { chunk := a.1, receiveTime := a.2 }) hw hb
  · obtain ⟨_, _, _, -, -, hthrows⟩ := h.throws_iff.mpr hs
    cases hthrows
  · exact h'

theorem Awaits.served {n : Nat} {b : Bytes} {reqs : List Bytes} {as : List (Bytes × Timestamp)}
    (h : Awaits conn (stale n b) held) (hcalm : conn.Calm)
    (hw : ∀ r ∈ reqs, WellFormed [(r, 0)])
    (hcut : held ++ (as.map Prod.fst).flatten = reqs.flatten) :
    (as.foldl arrives conn).Calm ∧ ∃ served left, reqs = served ++ left ∧
      left.map List.length =
        unserved (reqs.map List.length) held.length (as.map fun a => a.1.length) ∧
      (outputs receive conn as).map HttpRequest.forgetTime = oneByOne (stale n b) served := by
  induction as generalizing conn held n b reqs with
  | nil => exact ⟨hcalm, [], reqs, rfl, rfl, rfl⟩
  | cons a as ih =>
    rw [List.map_cons, List.flatten_cons, ← List.append_assoc] at hcut
    rw [List.foldl_cons, List.map_cons]
    -- a call that completes nothing
    have hwait (hn : (parser.runLoop (stale n b) (held ++ a.1)).1 = none) :
        (as.foldl arrives (conn.arrives a)).Calm ∧ ∃ served left, reqs = served ++ left ∧
          left.map List.length = unserved (reqs.map List.length) (held.length + a.1.length)
            (as.map fun a => a.1.length) ∧
          (outputs receive conn (a :: as)).map HttpRequest.forgetTime =
            oneByOne (stale n b) served := by
      obtain ⟨h', -⟩ := h.wait (d := { chunk := a.1, receiveTime := a.2 }) hn
      have hevents := h.events_wait hn
      have hcalm' := hcalm.arrives h'.running (by simp [hevents])
      have hnext := ih h' hcalm' hw hcut
      rw [List.length_append] at hnext
      rw [outputs, receive, hevents]
      exact hnext
    cases reqs with
    | nil =>
      have hnil : held ++ a.1 = [] := by
        simp only [List.flatten_nil, List.append_eq_nil_iff] at hcut ⊢
        exact hcut.1
      exact hwait (by rw [hnil]; rfl)
    | cons r reqs =>
      rw [List.flatten_cons] at hcut
      rw [List.map_cons, unserved]
      have hr := hw r List.mem_cons_self
      rcases whole_or_part hcut with ⟨hle, rest, hb, hrest⟩ | ⟨hlt, more, hm, hne⟩
      swap
      · rw [if_neg (by rw [List.length_append] at hlt; omega)]
        exact hwait (runLoop_part hr n b hm hne)
      rw [if_pos (by rw [List.length_append] at hle; omega)]
      have h' := h.arrives_serve hr hb
      obtain ⟨req, hevents, hreq⟩ := h.events_serve hr hb
      have hcalm' := hcalm.arrives h'.running (by simp [hevents])
      have hlen : held.length + a.1.length - r.length = rest.length := by
        rw [← List.length_append, hb, List.length_append, Nat.add_sub_cancel_left]
      obtain ⟨hlast, served, left, hreqs, hleft, houtputs⟩ :=
        ih h' hcalm' (fun q hq => hw q (List.mem_cons_of_mem r hq)) hrest
      rw [hlen]
      refine ⟨hlast, r :: served, left, by rw [hreqs, List.cons_append], hleft, ?_⟩
      rw [outputs, receive, hevents, oneByOne, ← hreq]
      exact congrArg (req.forgetTime :: ·) houtputs

theorem oneByOne_prefix (ctx : HttpContext) (served left : List Bytes) :
    oneByOne ctx served <+: oneByOne ctx (served ++ left) := by
  induction served generalizing ctx with
  | nil => exact List.nil_prefix
  | cons r served ih => exact List.cons_prefix_cons.mpr ⟨rfl, ih _⟩

theorem ne_nil_of_wellFormed {r : Bytes} (h : WellFormed [(r, 0)]) : r ≠ [] := by
  rintro rfl
  exact absurd h (by decide)

/-- All the requests are served where they are spread over the arrivals. -/
theorem unserved_of_spread {reqs : List Bytes} {as : List (Bytes × Timestamp)}
    (hw : ∀ r ∈ reqs, WellFormed [(r, 0)]) (hcut : (as.map Prod.fst).flatten = reqs.flatten)
    (h : Spread (reqs.map List.length) (as.map fun a => a.1.length)) :
    unserved (reqs.map List.length) 0 (as.map fun a => a.1.length) = [] := by
  apply (unserved_eq_nil_iff ?_ ?_).mpr h
  · intro j hj
    obtain ⟨r, hr, rfl⟩ := List.mem_map.mp hj
    exact List.length_pos_of_ne_nil (ne_nil_of_wellFormed (hw r hr))
  · have hlength := congrArg List.length hcut
    rw [List.length_flatten, List.length_flatten, List.map_map] at hlength
    exact hlength

end Connection

/-! ## Conversations -/

/-- The requests in the order in which their last bytes arrive. -/
def requestOrder (arrivals : List Arrival) : List (ℕ × HttpRequest) :=
  outputs (stepAt Connection.receive) (fun _ => {}) arrivals

/-- **Bytes that come in any order are served like requests that come whole.** Whatever the
clients send at the same time, and however it is cut, the server is where the requests would have
taken it one at a time. Among them are the first ones of each client, in the order in which it sent
them, and all of them unless the last arrivals bring too much at once; and a client gets the answers
to its own. -/
theorem served_in_one_order {τ : Type} {httpCallback_ : HttpRequest → Exchange τ → Exchange τ}
    {app : τ} {arrivals : List Arrival} {reqs : ℕ → List Bytes}
    (hw : ∀ c, ∀ r ∈ reqs c, WellFormed [(r, 0)])
    (hcut : ∀ c, ((ownTurns c arrivals).map Prod.fst).flatten = (reqs c).flatten) :
    let server := arrivals.foldl (HttpServer.onMessage httpCallback_) { app }
    let order := requestOrder arrivals
    let desk := order.foldl (Desk.serve httpCallback_) { app }
    server.status = .running ∧ server.app = desk.app ∧ ∀ c,
      (ownTurns c order).map HttpRequest.forgetTime <+: Connection.oneByOne {} (reqs c) ∧
      (Spread ((reqs c).map List.length) ((ownTurns c arrivals).map fun a => a.1.length) →
        (ownTurns c order).map HttpRequest.forgetTime = Connection.oneByOne {} (reqs c)) ∧
      (server.connections c).output =
        (upToClose (desk.answers c)).flatMap HttpResponse.appendToBuffer := by
  intro server order desk
  have hserved := fun c => Connection.awaits_fresh.served ⟨rfl, by simp⟩ (hw c) (hcut c)
  have hfresh : HttpServer.Matches (τ := τ) { app } { app } := ⟨rfl, fun _ => ⟨rfl, rfl⟩⟩
  obtain ⟨hstatus, happ, hanswered⟩ : server.status = .running ∧ server.Matches desk :=
    hfresh.run rfl fun c => (hserved c).1
  refine ⟨hstatus, happ, fun c => ?_⟩
  obtain ⟨-, served, left, hreqs, hleft, houtputs⟩ := hserved c
  have hown : (ownTurns c order).map HttpRequest.forgetTime = Connection.oneByOne {} served := by
    have halone := ownTurns_outputs Connection.receive (fun _ => {}) arrivals c
    exact (congrArg _ halone).trans houtputs
  refine ⟨?_, fun hspread => ?_, (hanswered c).output⟩
  · rw [hown, hreqs]
    exact Connection.oneByOne_prefix {} served left
  · have hnone := hleft.trans (Connection.unserved_of_spread (hw c) (hcut c) hspread)
    rw [hown, hreqs, List.map_eq_nil_iff.mp hnone, List.append_nil]

/-- A request that is whole while another one is still on its way. -/
def overtaking : List Arrival :=
  let get := bytes "GET / HTTP/1.1\r\n\r\n"
  [(0, get.take 5, 1), (1, get, 2), (0, get.drop 5, 3)]

/-- It is answered first. -/
theorem served_in_one_order_two :
    let server := overtaking.foldl (HttpServer.onMessage greet) { app := () }
    let desk := (requestOrder overtaking).foldl (Desk.serve greet) { app := () }
    (requestOrder overtaking).map Prod.fst = [1, 0] ∧ server.status = .running ∧
      (server.connections 0).output =
        (upToClose (desk.answers 0)).flatMap HttpResponse.appendToBuffer := by
  let get := bytes "GET / HTTP/1.1\r\n\r\n"
  let reqs : ℕ → List Bytes := fun c => if c < 2 then [get] else []
  have hget : WellFormed [(get, 0)] := by decide
  have hw : ∀ c, ∀ r ∈ reqs c, WellFormed [(r, 0)] := by
    intro c r hr
    obtain ⟨-, hr⟩ := List.mem_ite_nil_right.mp hr
    exact List.mem_singleton.mp hr ▸ hget
  have hcut : ∀ c, ((ownTurns c overtaking).map Prod.fst).flatten = (reqs c).flatten := by
    intro c
    match c with
    | 0 => decide
    | 1 => decide
    | c + 2 => simp [ownTurns, overtaking, reqs]
  obtain ⟨hstatus, -, hclients⟩ := @served_in_one_order Unit greet () overtaking reqs hw hcut
  obtain ⟨-, -, houtput⟩ := hclients 0
  exact ⟨by decide +kernel, hstatus, houtput⟩

end Workplace.Http
