import Workplace.Http.Connection
import Workplace.Http.Middlewares
import Workplace.Http.Rendering

/-! CORS. The preflight and the answer to the actual request choose their origin from one list,
each in its own way; and `setMethod` keeps every preflight from the middleware. -/

namespace Workplace.Http
open HttpContext HttpRequestParseState

namespace CorsMiddleware

/-! ## Two ways to choose an origin -/

/-- A browser lets a page of this origin read the response. -/
def Allows (resp : HttpResponse) (origin : Bytes) : Prop :=
  resp.headers_.lookup (bytes "Access-Control-Allow-Origin") = some origin ∨
    resp.headers_.lookup (bytes "Access-Control-Allow-Origin") = some (bytes "*")

theorem lookup_addCorsHeaders (config : CorsConfig) (resp : HttpResponse) (origin : Bytes) :
    (addCorsHeaders config resp origin).headers_.lookup (bytes "Access-Control-Allow-Origin") =
      some origin := by
  unfold addCorsHeaders
  split_ifs <;> simp +decide only [HttpResponse.lookup_addHeader, if_true, if_false]

theorem allows_addCorsHeaders {config : CorsConfig} {resp : HttpResponse} {first origin : Bytes} :
    Allows (addCorsHeaders config resp first) origin ↔ first = origin ∨ first = bytes "*" := by
  rw [Allows, lookup_addCorsHeaders, Option.some.injEq, Option.some.injEq]

variable (config : CorsConfig) (req : HttpRequest)

theorem preflight_allows_iff :
    (handlePrefightRequest config req {}).statusCode_ = .k204NoContent ∧
        Allows (handlePrefightRequest config req {}) (req.getHeader (bytes "Origin")) ↔
      isOrigrinAllowed config (req.getHeader (bytes "Origin")) = true := by
  unfold handlePrefightRequest
  dsimp only
  split_ifs with h
  · exact iff_of_true ⟨rfl, allows_addCorsHeaders.mpr (.inl rfl)⟩ h
  · exact iff_of_false (fun hp => absurd hp.1 (by simp [HttpResponse.setStatusCode])) h

theorem after_allows_iff (origin : Bytes) :
    (∀ resp, Allows (after config resp) origin) ↔
      bytes "*" ∈ config.allowedOrigins ∨ config.allowedOrigins.head? = some origin := by
  unfold after
  cases horigins : config.allowedOrigins with
  | nil =>
    refine iff_of_false (fun hall => ?_) (by simp)
    have hnone : Allows {} origin := hall {}
    simp [Allows] at hnone
  | cons first origins =>
    dsimp only
    by_cases hstar : bytes "*" ∈ first :: origins
    · simp only [List.contains_iff_mem, hstar, if_true]
      exact iff_of_true (fun resp => allows_addCorsHeaders.mpr (.inr rfl)) (.inl trivial)
    · have hfirst : first ≠ bytes "*" := fun h => hstar (h ▸ List.mem_cons_self)
      simp only [List.contains_iff_mem, hstar, if_false, allows_addCorsHeaders,
        List.head?_cons, Option.some.injEq, false_or]
      exact ⟨fun h => (h {}).resolve_right hfirst, fun h _ => .inl h⟩

/-- **Preflight and response agree** on an origin exactly when the list has the wildcard, or when
it has origins and, where this one is among them, it comes first. -/
theorem preflight_agrees_iff :
    ((handlePrefightRequest config req {}).statusCode_ = .k204NoContent ∧
        Allows (handlePrefightRequest config req {}) (req.getHeader (bytes "Origin")) ↔
      ∀ resp, Allows (after config resp) (req.getHeader (bytes "Origin"))) ↔
      bytes "*" ∈ config.allowedOrigins ∨ config.allowedOrigins ≠ [] ∧
        (req.getHeader (bytes "Origin") ∈ config.allowedOrigins →
          config.allowedOrigins.head? = some (req.getHeader (bytes "Origin"))) := by
  generalize horigin : req.getHeader (bytes "Origin") = origin
  have hpre := preflight_allows_iff config req
  rw [horigin] at hpre
  rw [hpre, after_allows_iff]
  have hhead : config.allowedOrigins.head? = some origin → origin ∈ config.allowedOrigins :=
    List.mem_of_head?
  simp only [isOrigrinAllowed, Bool.or_eq_true, List.isEmpty_iff, List.contains_iff_mem]
  by_cases hstar : bytes "*" ∈ config.allowedOrigins
  · simp only [hstar, or_true, true_or]
  by_cases hnil : config.allowedOrigins = []
  · simp [hnil]
  · simp only [hstar, hnil, or_false, false_or, ne_eq, not_false_eq_true, true_and]
    exact ⟨Iff.mp, fun hfirst => ⟨hfirst, hhead⟩⟩

/-- The second origin of a list is let through by the preflight only. -/
theorem preflight_disagrees :
    ¬ ∀ (config : CorsConfig) (req : HttpRequest),
      ((handlePrefightRequest config req {}).statusCode_ = .k204NoContent ∧
          Allows (handlePrefightRequest config req {}) (req.getHeader (bytes "Origin")) ↔
        ∀ resp, Allows (after config resp) (req.getHeader (bytes "Origin"))) := by
  intro hall
  have h := hall { allowedOrigins := [bytes "https://a", bytes "https://b"] }
    { headers_ := Finmap.singleton (bytes "Origin") (bytes "https://b") }
  rw [preflight_allows_iff, after_allows_iff] at h
  revert h
  decide

end CorsMiddleware
/-! ## Preflights on a connection -/

def badRequestText : Bytes := bytes "HTTP/1.1 400 Bad Request\r\n\r\n"

variable {τ : Type}

/-- What a plain connection sends while these events happen, with `handleRequest` as the HTTP
callback; none of them when it is over. -/
def sentFor (middlewares : List Middleware) (router : Router τ) (server : τ) :
    List Event → List Bytes
  | [] => []
  | .badRequest :: events => badRequestText :: sentFor middlewares router server events
  | .onRequest req :: events =>
    let (sent, server) := onRequest (handleRequest middlewares router) req server
    sent.bytes :: sentFor middlewares router server events

/-- The middleware would answer an OPTIONS request that came to it. -/
theorem handleRequest_preflight {config : CorsConfig} {front back : List Middleware}
    {req req' : HttpRequest} (hfront : processBefore front req = .ok req')
    (hm : req'.method_ = .kOptions) (router : Router τ) (x : Exchange τ) :
    (handleRequest (front ++ corsMiddleware config :: back) router req x).resp =
      CorsMiddleware.handlePrefightRequest config req' {} := by
  have hthrow : processBefore (front ++ corsMiddleware config :: back) req =
      .error (.response (CorsMiddleware.handlePrefightRequest config req' {})) := by
    unfold processBefore at hfront ⊢
    rw [List.foldlM_append, hfront]
    change (CorsMiddleware.before config req' >>= _) = _
    rw [CorsMiddleware.before, if_pos hm]
    rfl
  rw [handleRequest, hthrow]

/-- An OPTIONS request that is well-formed but for its method. -/
structure OptionsRequest where
  target : Bytes
  version : Bytes
  lines : List Bytes
  noSpace : 32 ∉ target
  oneLine : findCRLF target = none
  versioned : version ∈ httpVersions
  headers : ∀ line ∈ lines, findCRLF line = none ∧ 58 ∈ line

namespace OptionsRequest

variable (r : OptionsRequest)

def requestLine : Bytes := bytes "OPTIONS" ++ 32 :: (r.target ++ 32 :: r.version)

def text : Bytes := r.requestLine ++ CR :: LF :: (linesText r.lines ++ [CR, LF])

def request : HttpRequest :=
  { lineRequest .kOptions r.target r.version with headers_ := r.lines.foldl insertLine ∅ }

theorem findCRLF_text (rest : Bytes) :
    findCRLF (r.text ++ rest) = some r.requestLine.length ∧
      (r.text ++ rest).take r.requestLine.length = r.requestLine := by
  have hline : findCRLF r.requestLine = none :=
    findCRLF_parts (by decide) r.oneLine r.versioned
  have htext : r.text ++ rest =
      r.requestLine ++ CR :: LF :: (linesText r.lines ++ [CR, LF] ++ rest) := by
    simp [text]
  rw [htext]
  exact ⟨findCRLF_line hline _, (take_line _ _).1⟩

/-- `setMethod` does not know the method, so the line is refused and nothing is kept of it. -/
theorem processRequestLine_eq : processRequestLine {} r.requestLine = some (false, {}) := by
  have hmethod : HttpRequest.methodOf (bytes "OPTIONS") = .kInvalid := by decide
  rw [processRequestLine, requestLine, cut_append (by decide)]
  simp only [HttpRequest.setMethod, if_true, hmethod, ne_eq, not_true_eq_false, decide_false]

end OptionsRequest

/-- A connection that has refused its first line `n` times. -/
structure Refusing (conn : Connection) (n : ℕ) (buf : Bytes) : Prop where
  context : conn.context = {}
  inputBuffer : conn.inputBuffer = buf
  running : conn.status = .running
  calls : conn.calls.flatten = List.replicate n .badRequest

theorem Refusing.onMessage {conn : Connection} {n : ℕ} {buf : Bytes} (h : Refusing conn n buf)
    (d : Delivery) (hline : ∀ i, findCRLF (buf ++ d.chunk) = some i →
      processRequestLine {} ((buf ++ d.chunk).take i) = some (false, {})) :
    Refusing (conn.onMessage d) (if findCRLF (buf ++ d.chunk) = none then n else n + 1)
      (buf ++ d.chunk) := by
  rw [Connection.onMessage, if_pos h.running, h.context, h.inputBuffer]
  cases hf : findCRLF (buf ++ d.chunk) with
  | none =>
    rw [parseRequest_of_done (Round.waitLine (.inl rfl) hf).eq, if_pos rfl]
    exact ⟨rfl, rfl, h.running, by simp [Connection.afterParse, gotAll, h.calls]⟩
  | some i =>
    rw [parseRequest_of_done (Round.lineRefused rfl hf (hline i hf)).eq, if_neg (by simp)]
    refine ⟨rfl, rfl, h.running, ?_⟩
    simp [Connection.afterParse, gotAll, h.calls, List.replicate_succ']

theorem Refusing.foldl (r : OptionsRequest) {conn : Connection} {n : ℕ} {buf rest : Bytes}
    (h : Refusing conn n buf) (ds : List Delivery)
    (hds : buf ++ (ds.map Delivery.chunk).flatten = r.text ++ rest) :
    ∃ n', Refusing (ds.foldl Connection.onMessage conn) n' (r.text ++ rest) ∧ n ≤ n' ∧
      (findCRLF buf = none → 0 < n') := by
  induction ds generalizing conn n buf with
  | nil =>
    have hbuf : buf = r.text ++ rest := by simpa using hds
    refine ⟨n, hbuf ▸ h, le_rfl, fun hnone => ?_⟩
    rw [hbuf, (r.findCRLF_text rest).1] at hnone
    cases hnone
  | cons d ds ih =>
    have hds' : buf ++ d.chunk ++ (ds.map Delivery.chunk).flatten = r.text ++ rest := by
      rw [← hds, List.append_assoc, List.map_cons, List.flatten_cons]
    have hline : ∀ i, findCRLF (buf ++ d.chunk) = some i →
        processRequestLine {} ((buf ++ d.chunk).take i) = some (false, {}) := by
      intro i hi
      obtain ⟨hfound, htake⟩ := r.findCRLF_text rest
      have hsome := findCRLF_append (ds.map Delivery.chunk).flatten hi
      rw [hds', hfound] at hsome
      obtain rfl := Option.some.inj hsome
      rw [← take_findCRLF_append (ds.map Delivery.chunk).flatten hi, hds', htake]
      exact r.processRequestLine_eq
    obtain ⟨n', hconn, hle, hpos⟩ := ih (h.onMessage d hline) hds'
    refine ⟨n', hconn, ?_, fun hnone => ?_⟩
    · exact le_trans (by split_ifs <;> omega) hle
    · by_cases hbuf : findCRLF (buf ++ d.chunk) = none
      · exact hpos hbuf
      · rw [if_neg hbuf] at hle
        omega

theorem sentFor_replicate (middlewares : List Middleware) (router : Router τ) (server : τ)
    (n : ℕ) : sentFor middlewares router server (List.replicate n .badRequest) =
      List.replicate n badRequestText := by
  induction n with
  | zero => rfl
  | succ n ih => rw [List.replicate_succ, sentFor, ih, ← List.replicate_succ]

/-- The status line of a preflight has no version at its front. -/
theorem preflight_ne_badRequestText (config : CorsConfig) (req : HttpRequest) :
    (CorsMiddleware.handlePrefightRequest config req {}).appendToBuffer ≠ badRequestText := by
  have hversion : (CorsMiddleware.handlePrefightRequest config req {}).httpVersion_ = [] := by
    unfold CorsMiddleware.handlePrefightRequest CorsMiddleware.addCorsHeaders
    dsimp only
    split_ifs <;> rfl
  intro heq
  have hhead := congrArg List.head? heq
  rw [HttpResponse.appendToBuffer, HttpResponse.statusLine, hversion] at hhead
  have h32 : some (32 : UInt8) = some 72 := hhead
  revert h32
  decide

/-- The middleware's answer to the request is sent, and no 400. -/
structure PreflightAnswered (config : CorsConfig) (r : OptionsRequest) (sent : List Bytes) :
    Prop where
  answered : (CorsMiddleware.handlePrefightRequest config r.request {}).appendToBuffer ∈ sent
  accepted : badRequestText ∉ sent

/-- **No preflight is ever answered.** However the bytes arrive, and whatever comes behind them,
the connection sends nothing but 400s, and at least one. -/
theorem preflight_never_answered (config : CorsConfig) (front back : List Middleware)
    (router : Router τ) (server : τ) (r : OptionsRequest) (rest : Bytes) (ds : List Delivery)
    (hds : (ds.map Delivery.chunk).flatten = r.text ++ rest) :
    let sent := sentFor (front ++ corsMiddleware config :: back) router server
      (Connection.deliver ds).calls.flatten
    (∃ n, sent = List.replicate (n + 1) badRequestText) ∧ ¬ PreflightAnswered config r sent := by
  intro sent
  have hfresh : Refusing {} 0 [] := ⟨rfl, rfl, rfl, rfl⟩
  obtain ⟨n, hconn, -, hpos⟩ := hfresh.foldl r ds hds
  have hsent : sent = List.replicate n badRequestText := by
    have hcalls : (Connection.deliver ds).calls.flatten = List.replicate n .badRequest :=
      hconn.calls
    rw [← sentFor_replicate, ← hcalls]
  refine ⟨⟨n - 1, by rw [hsent, Nat.sub_add_cancel (hpos rfl)]⟩, fun hanswered => ?_⟩
  have hmem := hanswered.answered
  rw [hsent] at hmem
  exact preflight_ne_badRequestText config r.request (List.eq_of_mem_replicate hmem)

def preflight : OptionsRequest where
  target := bytes "/login"
  version := bytes "HTTP/1.1"
  lines := [bytes "Origin: https://a", bytes "Access-Control-Request-Method: POST"]
  noSpace := by decide
  oneLine := by decide
  versioned := http11_mem
  headers := by decide

/-- The request line in two chunks, and the rest in a third one: two 400s. -/
theorem preflight_never_answered_chunks :
    let chunks := [bytes "OPTIONS /login HT", bytes "TP/1.1\r\nOrigin: https://a\r\nAccess",
      bytes "-Control-Request-Method: POST\r\n\r\n"]
    let sent := sentFor [corsMiddleware .defaultConfig] ({} : Router Unit) ()
      (Connection.deliver (chunks.map fun c => { chunk := c })).calls.flatten
    sent = [badRequestText, badRequestText] ∧
      ¬ PreflightAnswered .defaultConfig preflight sent := by
  intro chunks sent
  exact ⟨by decide, (preflight_never_answered .defaultConfig [] [] {} () preflight [] _
    (by decide)).2⟩

/-- A preflight of an origin that is allowed is answered with a 400. -/
theorem preflight_refused :
    ¬ ∀ (config : CorsConfig) (front back : List Middleware) (router : Router Unit)
      (r : OptionsRequest) (ds : List Delivery), (ds.map Delivery.chunk).flatten = r.text →
        PreflightAnswered config r (sentFor (front ++ corsMiddleware config :: back) router ()
          (Connection.deliver ds).calls.flatten) := by
  intro hall
  have hanswered := hall .defaultConfig [] [] {} preflight [{ chunk := preflight.text }] (by decide)
  exact hanswered.accepted (by decide)

end Workplace.Http
