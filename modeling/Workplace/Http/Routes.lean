import Workplace.Http.Server

/-! The registration of routes, and the route that a request then takes. For the exact routes
what was registered last counts, for the dynamic ones what was registered first. -/

namespace Workplace.Http
open Workplace.Lib

variable {τ : Type}

inductive Registration (τ : Type) where
  | registerHandler (method : Method) (path : Bytes) (handler : Handler τ)
  | registerCallBack (method : Method) (path : Bytes) (callback : Handler τ)
  | addRegexHandler (method : Method) (path : Bytes) (handler : Handler τ)
  | addRegexCallback (method : Method) (path : Bytes) (callback : Handler τ)

section Registering

variable (convertToRegex : Bytes → Option Pattern)

namespace Router

/-- A path that is no regular expression makes the call throw, and leaves the table alone. -/
def addRegexHandler (r : Router τ) (method : Method) (path : Bytes) (handler : Handler τ) :
    Router τ :=
  match convertToRegex path with
  | some pathRegex => { r with regexHandlers_ := r.regexHandlers_ ++ [(method, pathRegex, handler)] }
  | none => r

def addRegexCallback (r : Router τ) (method : Method) (path : Bytes) (callback : Handler τ) :
    Router τ :=
  match convertToRegex path with
  | some pathRegex =>
    { r with regexCallbacks_ := r.regexCallbacks_ ++ [(method, pathRegex, callback)] }
  | none => r

def register (r : Router τ) : Registration τ → Router τ
  | .registerHandler method path handler => r.registerHandler method path handler
  | .registerCallBack method path callback => r.registerCallBack method path callback
  | .addRegexHandler method path handler => r.addRegexHandler convertToRegex method path handler
  | .addRegexCallback method path callback => r.addRegexCallback convertToRegex method path callback

end Router

/-! ## The intended target -/

namespace Registration

variable (req : HttpRequest)

def exactHandler : Registration τ → Option (Handler τ)
  | .registerHandler method path handler =>
    if method = req.method_ ∧ path = req.path_ then some handler else none
  | _ => none

def exactCallBack : Registration τ → Option (Handler τ)
  | .registerCallBack method path callback =>
    if method = req.method_ ∧ path = req.path_ then some callback else none
  | _ => none

/-- The captures of the request's path, where method and pattern match. -/
def captures (method : Method) (path : Bytes) : Option (List Bytes) :=
  if method = req.method_ then (convertToRegex path).bind fun pattern => pattern req.path_
  else none

def regexHandler : Registration τ → Option (Handler τ × List Bytes)
  | .addRegexHandler method path handler =>
    (captures convertToRegex req method path).map fun params => (handler, params)
  | _ => none

def regexCallback : Registration τ → Option (Handler τ × List Bytes)
  | .addRegexCallback method path callback =>
    (captures convertToRegex req method path).map fun params => (callback, params)
  | _ => none

/-- The target of a request after these registrations, and the parameters of its path. -/
def chosen (calls : List (Registration τ)) : Option (Handler τ × List Bytes) :=
  ((calls.reverse.findSome? (exactHandler req)).map fun handler => (handler, [])).or <|
  ((calls.reverse.findSome? (exactCallBack req)).map fun callback => (callback, [])).or <|
  (calls.findSome? (regexHandler convertToRegex req)).or
    (calls.findSome? (regexCallback convertToRegex req))

end Registration

end Registering

/-! ## Tables that are built call by call -/

section Tables

variable {σ ι β : Type} {step : σ → ι → σ} (table : σ → Option β) {entry : ι → Option β}

theorem table_of_newest (h : ∀ s a, table (step s a) = (entry a).or (table s)) (calls : List ι)
    (s : σ) : table (calls.foldl step s) = (calls.reverse.findSome? entry).or (table s) := by
  induction calls generalizing s with
  | nil => rfl
  | cons a calls ih =>
    rw [List.foldl_cons, ih, h, List.reverse_cons, List.findSome?_append, List.findSome?_singleton,
      Option.or_assoc]

theorem table_of_oldest (h : ∀ s a, table (step s a) = (table s).or (entry a)) (calls : List ι)
    (s : σ) : table (calls.foldl step s) = (table s).or (calls.findSome? entry) := by
  induction calls generalizing s with
  | nil => exact Option.or_none.symm
  | cons a calls ih =>
    rw [List.foldl_cons, ih, h, Option.or_assoc, List.findSome?_cons]
    cases entry a <;> rfl

end Tables

/-! ## The parameters -/

def paramKey (i : Nat) : Bytes := bytes ("param" ++ toString (i + 1))

theorem paramKey_injective : Function.Injective paramKey := by
  intro i j h
  rw [paramKey, paramKey, bytes_append, bytes_append] at h
  have hrepr : bytes (i + 1).repr = bytes (j + 1).repr := List.append_cancel_left h
  have hnum := congrArg decimal hrepr
  rw [decimal_repr, decimal_repr] at hnum
  omega

/-- The request is the same but for the first `k` parameters of its path. -/
def SameButParams (k : Nat) (req req' : HttpRequest) : Prop :=
  { req' with pathParameters_ := req.pathParameters_ } = req ∧
    ∀ key, (∀ i < k, key ≠ paramKey i) →
      req'.pathParameters_.lookup key = req.pathParameters_.lookup key

namespace Router

theorem foldl_params (captures : List Bytes) (n : Nat) (req : HttpRequest) :
    let req' := (captures.zipIdx n).foldl
      (fun req p => req.setPathParameters (paramKey p.2) p.1) req
    { req' with pathParameters_ := req.pathParameters_ } = req ∧
      (∀ i, (h : i < captures.length) →
        req'.pathParameters_.lookup (paramKey (n + i)) = some captures[i]) ∧
      ∀ key, (∀ i < captures.length, key ≠ paramKey (n + i)) →
        req'.pathParameters_.lookup key = req.pathParameters_.lookup key := by
  induction captures generalizing n req with
  | nil => exact ⟨rfl, nofun, fun _ _ => rfl⟩
  | cons capture captures ih =>
    obtain ⟨hsame, hparams, hothers⟩ := ih (n + 1) (req.setPathParameters (paramKey n) capture)
    rw [List.zipIdx_cons, List.foldl_cons]
    refine ⟨?_, fun i hi => ?_, fun key hkey => ?_⟩
    · exact congrArg (fun r => { r with pathParameters_ := req.pathParameters_ }) hsame
    · cases i with
      | zero =>
        rw [Nat.add_zero, hothers _ fun i _ h => ?_]
        · exact Finmap.lookup_insert _
        · have := paramKey_injective h
          omega
      | succ i =>
        have h := hparams i (Nat.lt_of_succ_lt_succ hi)
        rwa [Nat.add_right_comm, Nat.add_assoc] at h
    · rw [hothers key fun i hi h => hkey (i + 1) (Nat.succ_lt_succ hi) ?_]
      · exact Finmap.lookup_insert_of_ne _ (hkey 0 (Nat.succ_pos _))
      · rw [h, Nat.add_right_comm, Nat.add_assoc]

theorem lookup_extractPathParameters (captures : List Bytes) (req : HttpRequest) {i : Nat}
    (h : i < captures.length) :
    (extractPathParameters captures req).pathParameters_.lookup (paramKey i) =
      some captures[i] := by
  have hparam := (foldl_params captures 0 req).2.1 i h
  rwa [Nat.zero_add] at hparam

theorem sameButParams_extractPathParameters (captures : List Bytes) (req : HttpRequest) :
    SameButParams captures.length req (extractPathParameters captures req) := by
  obtain ⟨hsame, -, hothers⟩ := foldl_params captures 0 req
  refine ⟨hsame, fun key hkey => hothers key fun i hi => ?_⟩
  rw [Nat.zero_add]
  exact hkey i hi

/-! ## The four tables -/

section Selection

variable (convertToRegex : Bytes → Option Pattern) (req : HttpRequest) (r : Router τ)
  (call : Registration τ)

/-- A key that is registered once more has the newer value. -/
theorem update_exact (routes : Method × Bytes → Option (Handler τ)) (method : Method)
    (path : Bytes) (handler : Handler τ) :
    Function.update routes (method, path) (some handler) (req.method_, req.path_) =
      (if method = req.method_ ∧ path = req.path_ then some handler else none).or
        (routes (req.method_, req.path_)) := by
  simp only [Function.update_apply, Prod.mk.injEq, @eq_comm _ req.method_, @eq_comm _ req.path_]
  split_ifs <;> rfl

theorem addRegexHandler_eq (method : Method) (path : Bytes) (handler : Handler τ) :
    r.addRegexHandler convertToRegex method path handler =
      { r with regexHandlers_ := r.regexHandlers_ ++
          ((convertToRegex path).map fun pathRegex => (method, pathRegex, handler)).toList } := by
  rw [addRegexHandler]
  cases convertToRegex path with
  | none => rw [Option.map_none, Option.toList_none, List.append_nil]
  | some pathRegex => rfl

theorem addRegexCallback_eq (method : Method) (path : Bytes) (callback : Handler τ) :
    r.addRegexCallback convertToRegex method path callback =
      { r with regexCallbacks_ := r.regexCallbacks_ ++
          ((convertToRegex path).map fun pathRegex => (method, pathRegex, callback)).toList } := by
  rw [addRegexCallback]
  cases convertToRegex path with
  | none => rw [Option.map_none, Option.toList_none, List.append_nil]
  | some pathRegex => rfl

theorem handlers_register :
    (r.register convertToRegex call).handlers_ (req.method_, req.path_) =
      (call.exactHandler req).or (r.handlers_ (req.method_, req.path_)) := by
  cases call with
  | registerHandler method path handler => exact update_exact req r.handlers_ method path handler
  | registerCallBack => rfl
  | addRegexHandler => rw [register, addRegexHandler_eq]; rfl
  | addRegexCallback => rw [register, addRegexCallback_eq]; rfl

theorem callbacks_register :
    (r.register convertToRegex call).callbacks_ (req.method_, req.path_) =
      (call.exactCallBack req).or (r.callbacks_ (req.method_, req.path_)) := by
  cases call with
  | registerHandler => rfl
  | registerCallBack method path callback =>
    exact update_exact req r.callbacks_ method path callback
  | addRegexHandler => rw [register, addRegexHandler_eq]; rfl
  | addRegexCallback => rw [register, addRegexCallback_eq]; rfl

/-- The request that a target is called with. -/
def withParams (found : Handler τ × List Bytes) : Handler τ × HttpRequest :=
  (found.1, extractPathParameters found.2 req)

/-- A dynamic route that is added comes after the others, if its path is a regular expression. -/
theorem findRegex_append (routes : List (Method × Pattern × Handler τ)) (method : Method)
    (path : Bytes) (handler : Handler τ) :
    findRegex req (routes ++
        ((convertToRegex path).map fun pathRegex => (method, pathRegex, handler)).toList) =
      (findRegex req routes).or (((Registration.captures convertToRegex req method path).map
        fun params => (handler, params)).map (withParams req)) := by
  induction routes with
  | nil =>
    rw [List.nil_append, findRegex, Option.none_or, Registration.captures]
    cases convertToRegex path with
    | none => split_ifs <;> rfl
    | some pattern =>
      simp only [Option.map_some, Option.toList_some, findRegex, Option.bind_some]
      split_ifs <;> cases pattern req.path_ <;> rfl
  | cons route routes ih =>
    obtain ⟨method', pattern', handler'⟩ := route
    rw [List.cons_append, findRegex, findRegex, ih]
    cases (if method' = req.method_ then pattern' req.path_ else none) <;> rfl

theorem regexHandlers_register :
    findRegex req (r.register convertToRegex call).regexHandlers_ =
      (findRegex req r.regexHandlers_).or
        ((call.regexHandler convertToRegex req).map (withParams req)) := by
  cases call with
  | registerHandler | registerCallBack => exact Option.or_none.symm
  | addRegexHandler method path handler =>
    rw [register, addRegexHandler_eq]
    exact findRegex_append convertToRegex req r.regexHandlers_ method path handler
  | addRegexCallback =>
    rw [register, addRegexCallback_eq]
    exact Option.or_none.symm

theorem regexCallbacks_register :
    findRegex req (r.register convertToRegex call).regexCallbacks_ =
      (findRegex req r.regexCallbacks_).or
        ((call.regexCallback convertToRegex req).map (withParams req)) := by
  cases call with
  | registerHandler | registerCallBack => exact Option.or_none.symm
  | addRegexHandler =>
    rw [register, addRegexHandler_eq]
    exact Option.or_none.symm
  | addRegexCallback method path callback =>
    rw [register, addRegexCallback_eq]
    exact findRegex_append convertToRegex req r.regexCallbacks_ method path callback

theorem target_registered (calls : List (Registration τ)) :
    (calls.foldl (register convertToRegex) {}).target req =
      (Registration.chosen convertToRegex req calls).map (withParams req) := by
  have hhandlers := table_of_newest (fun r : Router τ => r.handlers_ (req.method_, req.path_))
    (handlers_register convertToRegex req) calls {}
  have hcallbacks := table_of_newest (fun r : Router τ => r.callbacks_ (req.method_, req.path_))
    (callbacks_register convertToRegex req) calls {}
  have hregex := table_of_oldest (fun r : Router τ => findRegex req r.regexHandlers_)
    (regexHandlers_register convertToRegex req) calls {}
  have hregex' := table_of_oldest (fun r : Router τ => findRegex req r.regexCallbacks_)
    (regexCallbacks_register convertToRegex req) calls {}
  rw [target, hhandlers, hcallbacks, hregex, hregex', Registration.chosen]
  -- the tables are empty before the first call
  rw [show ({} : Router τ).handlers_ (req.method_, req.path_) = none from rfl,
    show ({} : Router τ).callbacks_ (req.method_, req.path_) = none from rfl,
    show findRegex req ({} : Router τ).regexHandlers_ = none from rfl,
    Option.or_none, Option.or_none, Option.none_or, Option.none_or]
  have hmap (entry : Registration τ → Option (Handler τ × List Bytes)) :
      calls.findSome? (fun call => (entry call).map (withParams req)) =
        (calls.findSome? entry).map (withParams req) :=
    List.map_findSome?.symm
  rw [hmap, hmap]
  cases calls.reverse.findSome? (Registration.exactHandler req) with
  | some handler => rfl
  | none =>
    cases calls.reverse.findSome? (Registration.exactCallBack req) with
    | some callback => rfl
    | none => cases calls.findSome? (Registration.regexHandler convertToRegex req) <;> rfl

/-- **Routing takes one target**: the exact handler or callback registered last, or the dynamic
handler or callback registered first; it calls this one with nothing but parameters added to the
request, or calls none. -/
theorem route_registered (calls : List (Registration τ)) :
    match Registration.chosen convertToRegex req calls with
    | some (handler, params) =>
      (calls.foldl (register convertToRegex) {}).route req = (do
        handler (extractPathParameters params req)
        return true) ∧
      SameButParams params.length req (extractPathParameters params req)
    | none => (calls.foldl (register convertToRegex) {}).route req = return false := by
  have htarget := target_registered convertToRegex req calls
  split
  · next handler params h =>
    rw [h] at htarget
    rw [route, htarget]
    exact ⟨rfl, sameButParams_extractPathParameters params req⟩
  · next h =>
    rw [h] at htarget
    rw [route, htarget]
    rfl

end Selection

end Router
end Workplace.Http
