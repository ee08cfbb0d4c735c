import Workplace.Http.Context

/-! The request line: when `processRequestLine` accepts it, when it leaves a method behind
although it does not, and when the assertion of `setMethod` fails. -/

namespace Workplace.Http
namespace HttpContext

theorem setMethod_eq_none {req : HttpRequest} {m : Bytes} :
    req.setMethod m = none ↔ req.method_ ≠ .kInvalid := by
  unfold HttpRequest.setMethod
  split_ifs with h <;> simp [h]

theorem setMethod_eq_some {req req' : HttpRequest} {m : Bytes} {ok : Bool}
    (h : req.setMethod m = some (ok, req')) :
    req.method_ = .kInvalid ∧ ok = decide (HttpRequest.methodOf m ≠ .kInvalid) ∧
      req' = { req with method_ := HttpRequest.methodOf m } := by
  unfold HttpRequest.setMethod at h
  split_ifs at h with hm
  simp only [Option.some.injEq, Prod.mk.injEq] at h
  exact ⟨hm, h.1.symm, h.2.symm⟩

theorem setTarget_method (req : HttpRequest) (target : Bytes) :
    (setTarget req target).method_ = req.method_ := by
  unfold setTarget HttpRequest.setQueryPathParameters
  rcases cut 63 target with _ | ⟨path, args⟩
  · rfl
  · dsimp only
    split_ifs <;> rfl

def NamesMethod (line : Bytes) : Prop :=
  ∃ m after, cut 32 line = some (m, after) ∧ HttpRequest.methodOf m ≠ .kInvalid

def AcceptsLine (line : Bytes) : Prop :=
  ∃ m after target version v, cut 32 line = some (m, after) ∧
    HttpRequest.methodOf m ≠ .kInvalid ∧ cut 32 after = some (target, version) ∧
    versionOf version = some v

inductive LineRead (req : HttpRequest) (line : Bytes) : Option (Bool × HttpRequest) → Prop where
  | noSpace (hl : cut 32 line = none) : LineRead req line (some (false, req))
  | asserts {m after : Bytes} (hl : cut 32 line = some (m, after))
      (hm : req.method_ ≠ .kInvalid) : LineRead req line none
  | noMethod {m after : Bytes} (hl : cut 32 line = some (m, after))
      (hr : req.method_ = .kInvalid) (hm : HttpRequest.methodOf m = .kInvalid) :
      LineRead req line (some (false, { req with method_ := .kInvalid }))
  | noTarget {m after : Bytes} (hl : cut 32 line = some (m, after))
      (hr : req.method_ = .kInvalid) (hm : HttpRequest.methodOf m ≠ .kInvalid)
      (ht : cut 32 after = none) :
      LineRead req line (some (false, { req with method_ := HttpRequest.methodOf m }))
  | noVersion {m after target version : Bytes} (hl : cut 32 line = some (m, after))
      (hr : req.method_ = .kInvalid) (hm : HttpRequest.methodOf m ≠ .kInvalid)
      (ht : cut 32 after = some (target, version)) (hv : versionOf version = none) :
      LineRead req line
        (some (false, setTarget { req with method_ := HttpRequest.methodOf m } target))
  | accepted {m after target version v : Bytes} (hl : cut 32 line = some (m, after))
      (hr : req.method_ = .kInvalid) (hm : HttpRequest.methodOf m ≠ .kInvalid)
      (ht : cut 32 after = some (target, version)) (hv : versionOf version = some v) :
      LineRead req line (some (true,
        (setTarget { req with method_ := HttpRequest.methodOf m } target).setVersion v))

theorem processRequestLine_read (req : HttpRequest) (line : Bytes) :
    LineRead req line (processRequestLine req line) := by
  unfold processRequestLine
  rcases hl : cut 32 line with _ | ⟨m, after⟩
  · exact .noSpace hl
  dsimp only
  rcases hs : req.setMethod m with _ | ⟨ok, req'⟩
  · exact .asserts hl (setMethod_eq_none.mp hs)
  obtain ⟨hr, rfl, rfl⟩ := setMethod_eq_some hs
  by_cases hm : HttpRequest.methodOf m = .kInvalid
  · simp only [hm, ne_eq, not_true_eq_false, decide_false]
    exact .noMethod hl hr hm
  simp only [hm, ne_eq, not_false_eq_true, decide_true]
  rcases ht : cut 32 after with _ | ⟨target, version⟩
  · exact .noTarget hl hr hm ht
  dsimp only
  rcases hv : versionOf version with _ | v
  · exact .noVersion hl hr hm ht hv
  · exact .accepted hl hr hm ht hv

/-- The assertion fails on a line with a space, read with a method already set. -/
theorem processRequestLine_eq_none {req : HttpRequest} {line : Bytes} :
    processRequestLine req line = none ↔
      (cut 32 line).isSome ∧ req.method_ ≠ .kInvalid := by
  have h := processRequestLine_read req line
  generalize processRequestLine req line = r at h
  cases h with
  | noSpace hl => simp [hl]
  | asserts hl hm => simp [hl, hm]
  | noMethod hl hr => simp [hr]
  | noTarget hl hr => simp [hr]
  | noVersion hl hr => simp [hr]
  | accepted hl hr => simp [hr]

theorem processRequestLine_accepts {req req' : HttpRequest} {line : Bytes} {ok : Bool}
    (h : processRequestLine req line = some (ok, req')) : ok = true ↔ AcceptsLine line := by
  cases h ▸ processRequestLine_read req line with
  | noSpace hl => simp [AcceptsLine, hl]
  | noMethod hl _ hm => simp [AcceptsLine, hl, hm]
  | noTarget hl _ _ ht => simp [AcceptsLine, hl, ht]
  | noVersion hl _ _ ht hv => simp [AcceptsLine, hl, ht, hv]
  | accepted hl _ hm ht hv => simp [AcceptsLine, hl, ht, hv, hm]

theorem processRequestLine_method {req req' : HttpRequest} {line : Bytes} {ok : Bool}
    (hreq : req.method_ = .kInvalid) (h : processRequestLine req line = some (ok, req')) :
    req'.method_ ≠ .kInvalid ↔ NamesMethod line := by
  cases h ▸ processRequestLine_read req line with
  | noSpace hl => simp [NamesMethod, hl, hreq]
  | noMethod hl _ hm => simp [NamesMethod, hl, hm]
  | noTarget hl _ hm => simp [NamesMethod, hl, hm]
  | noVersion hl _ hm => simp [NamesMethod, hl, hm, setTarget_method]
  | accepted hl _ hm => simp [NamesMethod, hl, hm, setTarget_method, HttpRequest.setVersion]

end HttpContext
end Workplace.Http
