import Workplace.Http.Server

/-! The after-hooks of the middlewares. `handleRequest` runs the before-hooks, the handler and
the after-hooks in one `try` block, and `processAfter` has one of its own around its loop. -/

namespace Workplace.Http

/-- A call of an after-hook, with the response that it is given. -/
structure HookCall where
  middleware : Middleware
  resp : HttpResponse

/-- The response as the hook leaves it, whichever way it ends. -/
def HookCall.result (c : HookCall) : HttpResponse :=
  match c.middleware.after.run c.resp with
  | .ok _ resp => resp
  | .error _ resp => resp

/-- The calls that `runAfter` makes. -/
def afterCalls : List Middleware → HttpResponse → List HookCall
  | [], _ => []
  | m :: ms, resp =>
    ⟨m, resp⟩ :: match m.after.run resp with
      | .ok _ resp => afterCalls ms resp
      | .error _ _ => []

variable {τ : Type}

/-- What the handler, or `handleRequest` for want of one, has left. -/
def answered (found : Bool) (x : Exchange τ) : Exchange τ := if found then x else notFound x

/-- The calls of after-hooks that `handleRequest` makes. -/
def hookCalls (middlewares : List Middleware) (router : Router τ) (req : HttpRequest)
    (x : Exchange τ) : List HookCall :=
  match processBefore middlewares req with
  | .error _ => []
  | .ok mutableReq =>
    match (router.route mutableReq).run x with
    | .error _ _ => []
    | .ok found x => afterCalls middlewares.reverse (answered found x).resp

/-- Every after-hook is called once, in the reverse of the order of the before-hooks, on the
response that the hook before it has left, and what the last one leaves is sent. -/
structure Wrapped (middlewares : List Middleware) (calls : List HookCall) (sent : HttpResponse) :
    Prop where
  once : calls.map HookCall.middleware = middlewares.reverse
  passedOn : calls.IsChain fun c c' => c'.resp = c.result
  sent : ∀ c ∈ calls.getLast?, c.result = sent

/-- No hook of the list throws on what it is given, but perhaps the last. -/
def OnlyLastThrows : List Middleware → HttpResponse → Prop
  | [], _ | [_], _ => True
  | m :: m' :: ms, resp =>
    match m.after.run resp with
    | .ok _ resp => OnlyLastThrows (m' :: ms) resp
    | .error _ _ => False

theorem result_of_ok {m : Middleware} {resp resp' : HttpResponse}
    (h : m.after.run resp = .ok () resp') : HookCall.result ⟨m, resp⟩ = resp' := by
  rw [HookCall.result, h]

theorem result_of_error {m : Middleware} {resp resp' : HttpResponse} {what : Bytes}
    (h : m.after.run resp = .error what resp') : HookCall.result ⟨m, resp⟩ = resp' := by
  rw [HookCall.result, h]

theorem afterCalls_isChain (ms : List Middleware) (resp : HttpResponse) :
    (afterCalls ms resp).IsChain (fun c c' => c'.resp = c.result) ∧
      (∀ c ∈ (afterCalls ms resp).head?, c.resp = resp) := by
  induction ms generalizing resp with
  | nil => exact ⟨.nil, by simp [afterCalls]⟩
  | cons m ms ih =>
    refine ⟨?_, fun c hc => by simp [← Option.some.inj hc]⟩
    rw [afterCalls]
    cases hrun : m.after.run resp with
    | ok _ resp' =>
      obtain ⟨hchain, hhead⟩ := ih resp'
      refine List.isChain_cons.mpr ⟨fun c hc => ?_, hchain⟩
      rw [hhead c hc, result_of_ok hrun]
    | error what resp' => exact .singleton _

theorem runAfter_eq (ms : List Middleware) (resp : HttpResponse) :
    runAfter ms resp = ((afterCalls ms resp).getLast?.map HookCall.result).getD resp := by
  induction ms generalizing resp with
  | nil => rfl
  | cons m ms ih =>
    rw [runAfter, afterCalls]
    cases hrun : m.after.run resp with
    | error what resp' => exact (result_of_error hrun).symm
    | ok _ resp' =>
      dsimp only
      rw [ih, List.getLast?_cons]
      cases (afterCalls ms resp').getLast? with
      | none => exact (result_of_ok hrun).symm
      | some c => rfl

theorem afterCalls_once_iff (ms : List Middleware) (resp : HttpResponse) :
    (afterCalls ms resp).map HookCall.middleware = ms ↔ OnlyLastThrows ms resp := by
  induction ms generalizing resp with
  | nil => exact iff_of_true rfl trivial
  | cons m ms ih =>
    rw [afterCalls, List.map_cons, List.cons.injEq, and_iff_right rfl]
    cases ms with
    | nil =>
      refine iff_of_true ?_ trivial
      cases m.after.run resp <;> rfl
    | cons m' ms =>
      rw [OnlyLastThrows]
      cases m.after.run resp with
      | ok _ resp' => exact ih resp'
      | error what resp' => exact iff_of_false (List.cons_ne_nil _ _).symm id

variable {middlewares : List Middleware} {router : Router τ} {req mutableReq : HttpRequest}
  {x : Exchange τ}

/-- **The after-hooks wrap the response** exactly when the handler returns, or there are no
middlewares, and no hook but the last throws. -/
theorem wrapped_iff (h : processBefore middlewares req = .ok mutableReq) :
    Wrapped middlewares (hookCalls middlewares router req x)
        (handleRequest middlewares router req x).resp ↔
      middlewares = [] ∨ ∃ found x', (router.route mutableReq).run x = .ok found x' ∧
        OnlyLastThrows middlewares.reverse (answered found x').resp := by
  unfold hookCalls handleRequest
  simp only [h]
  cases hrun : (router.route mutableReq).run x with
  | error what x' =>
    constructor
    · intro hw
      exact .inl (List.reverse_eq_nil_iff.mp hw.once.symm)
    · rintro (rfl | ⟨found, x'', hok, -⟩)
      · exact ⟨rfl, .nil, by simp⟩
      · cases hok
  | ok found x' =>
    have hlast := runAfter_eq middlewares.reverse (answered found x').resp
    constructor
    · intro hw
      exact .inr ⟨found, x', rfl, (afterCalls_once_iff _ _).mp hw.once⟩
    · intro hcond
      have honce : OnlyLastThrows middlewares.reverse (answered found x').resp := by
        rcases hcond with rfl | ⟨found', x'', hok, honce⟩
        · trivial
        · cases hok
          exact honce
      refine ⟨(afterCalls_once_iff _ _).mpr honce, (afterCalls_isChain _ _).1, fun c hc => ?_⟩
      dsimp only
      rw [processAfter, ← answered, hlast, hc, Option.map_some, Option.getD_some]

theorem Wrapped.cors {calls : List HookCall} {sent : HttpResponse} {config : CorsConfig}
    (h : Wrapped middlewares calls sent) (hconfig : corsMiddleware config ∈ middlewares) :
    ∃ c ∈ calls, c.result = CorsMiddleware.after config c.resp := by
  have hmem : corsMiddleware config ∈ calls.map HookCall.middleware :=
    h.once ▸ List.mem_reverse.mpr hconfig
  obtain ⟨c, hc, hm⟩ := List.mem_map.mp hmem
  refine ⟨c, hc, ?_⟩
  rw [HookCall.result, hm]
  rfl

def oneHandler (handler : Handler τ) : Router τ := { handlers_ := fun _ => some handler }

/-- The middleware list of a server with CORS, and a handler that sets the status. -/
theorem wrapped_of_status :
    let middlewares := [corsMiddleware .defaultConfig]
    let router : Router Unit := oneHandler fun _ =>
      modify fun x => { x with resp := x.resp.setStatusCode .k200Ok }
    let x : Exchange Unit := { server := (), resp := {} }
    let req : HttpRequest := { method_ := .kGet }
    Wrapped middlewares (hookCalls middlewares router req x)
      (handleRequest middlewares router req x).resp := by
  intro middlewares router x req
  have hbefore : processBefore middlewares req = .ok req := rfl
  exact (wrapped_iff hbefore).mpr (.inr ⟨true, _, rfl, trivial⟩)

/-- A handler that throws: the response is sent with status 500, and without the headers. -/
theorem not_wrapped_of_throw : ¬ ∀ (middlewares : List Middleware) (router : Router Unit)
    (req mutableReq : HttpRequest) (x : Exchange Unit),
    processBefore middlewares req = .ok mutableReq →
      Wrapped middlewares (hookCalls middlewares router req x)
        (handleRequest middlewares router req x).resp := by
  intro h
  have hw := h [corsMiddleware .defaultConfig] (oneHandler fun _ => throw (bytes "bad"))
    { method_ := .kGet } _ { server := (), resp := {} } rfl
  cases hw.once

end Workplace.Http
