import Workplace.Http.Response

/-! The number of bytes that `onRequest` sends over TLS, `getContentLength`, next to the number
that `appendToBuffer` writes. The two count separators differently, and only the second knows
about the `Connection` line. -/

namespace Workplace.Http
namespace HttpResponse

def getContentLength (resp : HttpResponse) : Nat :=
  resp.httpVersion_.length + 1 + resp.statusMessage_.length + 1 + 4 + 1 +
    (resp.headers_.entries.map fun header => header.1.length + 1 + header.2.length + 1).sum +
    resp.body_.length

/-- What `snprintf` writes: it stops at a NUL of the version, and at 31 characters. -/
def startLength (resp : HttpResponse) : Nat :=
  min 31 ((resp.httpVersion_.takeWhile (· ≠ 0)).length + 1 +
    (bytes (toString resp.statusCode_.code)).length)

/-- The bytes of the version that are not written make up for those that are not declared: the
`Connection` line, and two more for each header. -/
def VersionFills (resp : HttpResponse) : Prop :=
  resp.httpVersion_.length + 3 = resp.startLength +
    (if resp.closeConnection_ then 19 else 24) + 2 * resp.headers_.entries.length

variable (resp : HttpResponse)

theorem length_statusLine :
    resp.statusLine.length = resp.startLength + resp.statusMessage_.length + 2 := by
  unfold statusLine startLength
  have hspace : (bytes " ").length = 1 := rfl
  rw [List.length_append, List.length_append, List.length_take, List.length_append,
    List.length_append, hspace]
  rfl

theorem length_connectionLine (close : Bool) :
    (connectionLine close).length = if close then 19 else 24 := by
  cases close <;> rfl

theorem length_headers (headers : List (Bytes × Bytes)) :
    (headers.flatMap fun h => h.1 ++ bytes ": " ++ h.2 ++ crlf).length =
      (headers.map fun h => h.1.length + 1 + h.2.length + 1).sum + 2 * headers.length := by
  induction headers with
  | nil => rfl
  | cons h headers ih =>
    have hcolon : (bytes ": ").length = 2 := rfl
    have hcrlf : crlf.length = 2 := rfl
    rw [List.flatMap_cons, List.length_append, ih, List.map_cons, List.sum_cons,
      List.length_cons, List.length_append, List.length_append, List.length_append, hcolon, hcrlf]
    omega

theorem length_appendToBuffer : resp.appendToBuffer.length + resp.httpVersion_.length + 3 =
    resp.getContentLength + (resp.startLength + (if resp.closeConnection_ then 19 else 24) +
      2 * resp.headers_.entries.length) := by
  unfold appendToBuffer getContentLength
  have hcrlf : crlf.length = 2 := rfl
  rw [List.length_append, List.length_append, List.length_append, List.length_append,
    length_statusLine, length_connectionLine, length_headers, hcrlf]
  omega

/-- **The declared length is the real one** only for a version that is long enough, or has a NUL
early enough, to lose as many bytes as the other parts have more. -/
theorem getContentLength_eq_iff :
    resp.getContentLength = resp.appendToBuffer.length ↔ resp.VersionFills := by
  have hlength := resp.length_appendToBuffer
  unfold VersionFills
  omega

/-- A version that is written whole is no such version: the end of the response is cut off. -/
theorem getContentLength_lt (hversion : resp.httpVersion_.length ≤ 46)
    (hnul : 0 ∉ resp.httpVersion_) : resp.getContentLength < resp.appendToBuffer.length := by
  have hlength := resp.length_appendToBuffer
  have hwhole : resp.httpVersion_.takeWhile (· ≠ 0) = resp.httpVersion_ := by
    refine List.takeWhile_eq_self_iff.mpr fun b hb => ?_
    exact decide_eq_true fun heq => hnul (heq ▸ hb)
  have hconnection : 19 ≤ if resp.closeConnection_ then 19 else 24 := by
    split_ifs <;> decide
  unfold startLength at hlength
  rw [hwhole] at hlength
  omega

/-- `HTTP/1.1 200OK` with the `Connection` line is 37 bytes long, and declared to be 17. -/
theorem getContentLength_ne :
    ¬ ∀ resp : HttpResponse, resp.getContentLength = resp.appendToBuffer.length := by
  intro h
  have hok := h (setStatusLine {} .k200Ok (bytes "OK") (bytes "HTTP/1.1"))
  exact absurd hok (Nat.ne_of_lt (getContentLength_lt _ (by decide) (by decide)))

end HttpResponse
end Workplace.Http
