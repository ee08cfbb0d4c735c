import Workplace.Http.Rendering
import Workplace.Http.Response

/-! A response read back from its bytes, with the grammar of HTTP/1.1. No blank stands between
the status code and the message, and the grammar has one there: everything else is read as it
was set. -/

namespace Workplace.Http

structure ResponseParts where
  version : Bytes
  code : Nat
  reason : Bytes
  headers : List (Bytes × Bytes)
  body : Bytes
  deriving DecidableEq

/-! ## The grammar -/

/-- The bytes up to the first CR LF and those behind it. -/
def readLine (b : Bytes) : Option (Bytes × Bytes) :=
  (findCRLF b).map fun i => (b.take i, b.drop (i + 2))

theorem readLine_shrinks {b line rest : Bytes} (h : readLine b = some (line, rest)) :
    rest.length < b.length := by
  obtain ⟨i, hi, heq⟩ := Option.map_eq_some_iff.mp h
  have hbound := findCRLF_bound hi
  rw [← (Prod.mk.inj heq).2, List.length_drop]
  omega

/-- Version, SP, a code of three digits, SP, reason. -/
def readStatusLine (line : Bytes) : Option (Bytes × Nat × Bytes) := do
  let (version, rest) ← cut 32 line
  let (code, reason) ← cut 32 rest
  if code.length = 3 ∧ code.all isdigit then some (version, decimal code, reason) else none

def isOWS (b : UInt8) : Bool := b = 32 || b = 9

def trimOWS (value : Bytes) : Bytes := (value.dropWhile isOWS).rdropWhile isOWS

/-- The header lines up to the blank line, and the body behind it. -/
def readHeaders (b : Bytes) : Option (List (Bytes × Bytes) × Bytes) :=
  match _hline : readLine b with
  | none => none
  | some (line, rest) =>
    if line = [] then some ([], rest)
    else do
      let (name, value) ← cut 58 line
      let (headers, body) ← readHeaders rest
      return ((name, trimOWS value) :: headers, body)
termination_by b.length
decreasing_by exact readLine_shrinks _hline

def readResponse (b : Bytes) : Option ResponseParts := do
  let (line, rest) ← readLine b
  let (version, code, reason) ← readStatusLine line
  let (headers, body) ← readHeaders rest
  return ⟨version, code, reason, headers, body⟩

/-! ## Lines -/

theorem findCRLF_of_not_mem {b : Bytes} (h : CR ∉ b) : findCRLF b = none := by
  induction b with
  | nil => rfl
  | cons c cs ih =>
    obtain ⟨hc, hcs⟩ := List.ne_and_not_mem_of_not_mem_cons h
    exact findCRLF_cons_eq_none.mpr ⟨fun hcr => hc hcr.1.symm, ih hcs⟩

theorem readLine_line {line : Bytes} (h : CR ∉ line) (rest : Bytes) :
    readLine (line ++ crlf ++ rest) = some (line, rest) := by
  have htext : line ++ crlf ++ rest = line ++ CR :: LF :: rest := List.append_assoc _ _ _
  obtain ⟨htake, hdrop⟩ := HttpContext.take_line line rest
  rw [htext, readLine, findCRLF_line (findCRLF_of_not_mem h), Option.map_some, htake, hdrop]

def afterSpace : Bytes → Option Bytes
  | [] => none
  | b :: bs => if b = 32 then some bs else none

theorem length_afterSpace {message reason : Bytes} (h : afterSpace message = some reason) :
    reason.length < message.length := by
  cases message with
  | nil => exact absurd h (Option.some_ne_none _).symm
  | cons b bs =>
    rw [afterSpace] at h
    split_ifs at h
    rw [Option.some.inj h]
    exact Nat.lt_succ_self _

/-- With the blank missing, the message has to bring one along. -/
theorem readStatusLine_joined {version code : Bytes} (hversion : 32 ∉ version)
    (hlength : code.length = 3) (hdigits : code.all isdigit = true) (message : Bytes) :
    readStatusLine (version ++ 32 :: (code ++ message)) =
      (afterSpace message).map fun reason => (version, decimal code, reason) := by
  have hcode : 32 ∉ code := by
    intro h
    exact absurd (List.all_eq_true.mp hdigits 32 h) (by decide)
  have hsplit (rest : Bytes) : readStatusLine (version ++ 32 :: rest) =
      (cut 32 rest).bind fun p => if p.1.length = 3 ∧ p.1.all isdigit then
        some (version, decimal p.1, p.2) else none := by
    rw [readStatusLine, cut_append hversion]
    rfl
  rw [hsplit]
  cases message with
  | nil =>
    rw [List.append_nil, cut_eq_none.mpr hcode]
    rfl
  | cons b bs =>
    rw [afterSpace]
    split_ifs with hb
    · rw [hb, cut_append hcode]
      exact if_pos ⟨hlength, hdigits⟩
    · cases hcut : cut 32 (code ++ b :: bs) with
      | none => rfl
      | some p =>
        obtain ⟨-, heq⟩ := cut_eq_some.mp hcut
        -- a code of three bytes would end where the message begins
        refine if_neg fun hthree => hb ?_
        have htail := (List.append_inj heq (hlength.trans hthree.1.symm)).2
        exact (List.cons.inj htail).1

/-! ## Headers -/

def headerText (h : Bytes × Bytes) : Bytes := h.1 ++ bytes ": " ++ h.2 ++ crlf

structure PlainHeader (h : Bytes × Bytes) : Prop where
  name : 58 ∉ h.1 ∧ CR ∉ h.1 ∧ LF ∉ h.1
  value : CR ∉ h.2 ∧ LF ∉ h.2

theorem readHeaders_blank {b body : Bytes} (h : readLine b = some ([], body)) :
    readHeaders b = some ([], body) := by
  rw [readHeaders]
  split
  · next hnone => exact absurd (h.symm.trans hnone) (Option.some_ne_none _)
  · next line rest hsome =>
    obtain ⟨rfl, rfl⟩ := Prod.mk.inj (Option.some.inj (h.symm.trans hsome))
    exact if_pos rfl

theorem readHeaders_line {b line rest : Bytes} (h : readLine b = some (line, rest))
    (hline : line ≠ []) : readHeaders b = (cut 58 line).bind fun field =>
      (readHeaders rest).map fun p => ((field.1, trimOWS field.2) :: p.1, p.2) := by
  rw [readHeaders]
  split
  · next hnone => exact absurd (h.symm.trans hnone) (Option.some_ne_none _)
  · next line' rest' hsome =>
    obtain ⟨rfl, rfl⟩ := Prod.mk.inj (Option.some.inj (h.symm.trans hsome))
    rw [if_neg hline]
    cases cut 58 line with
    | none => rfl
    | some field => cases readHeaders rest <;> rfl

theorem readHeaders_headerText {headers : List (Bytes × Bytes)}
    (h : ∀ header ∈ headers, PlainHeader header) (body : Bytes) :
    readHeaders (headers.flatMap headerText ++ crlf ++ body) =
      some (headers.map fun header => (header.1, trimOWS header.2), body) := by
  induction headers with
  | nil => exact readHeaders_blank (readLine_line List.not_mem_nil body)
  | cons header headers ih =>
    obtain ⟨⟨⟨hcolon, hname, -⟩, hvalue, -⟩, hheaders⟩ := List.forall_mem_cons.mp h
    have hcr : CR ∉ header.1 ++ 58 :: 32 :: header.2 := by
      simp only [List.mem_append, List.mem_cons, not_or]
      exact ⟨hname, by decide, by decide, hvalue⟩
    have htext : (header :: headers).flatMap headerText ++ crlf ++ body =
        (header.1 ++ 58 :: 32 :: header.2) ++ crlf ++
          (headers.flatMap headerText ++ crlf ++ body) := by
      simp [headerText, show bytes ": " = [58, 32] from rfl]
    rw [htext, readHeaders_line (readLine_line hcr _) (List.append_ne_nil_of_right_ne_nil _
      (List.cons_ne_nil _ _)), cut_append hcolon, ih hheaders]
    rfl

theorem readResponse_line {b line rest : Bytes} (h : readLine b = some (line, rest)) :
    readResponse b = (readStatusLine line).bind fun status =>
      (readHeaders rest).map fun p => ⟨status.1, status.2.1, status.2.2, p.1, p.2⟩ := by
  rw [readResponse, h, Option.bind_eq_bind, Option.bind_some]
  dsimp only
  cases readStatusLine line with
  | none => rfl
  | some status =>
    dsimp only [Option.bind_eq_bind, Option.bind_some]
    cases readHeaders rest <;> rfl

/-! ## What is read of a response -/

namespace HttpResponse

/-- What the setters were told: version, code and message, the headers and the connection. -/
def parts (resp : HttpResponse) : ResponseParts where
  version := resp.httpVersion_
  code := resp.statusCode_.code
  reason := resp.statusMessage_
  headers := (bytes "Connection", bytes (if resp.closeConnection_ then "close" else "Keep-Alive"))
    :: resp.headers_.entries
  body := resp.body_

structure Plain (resp : HttpResponse) : Prop where
  version : resp.httpVersion_ ∈ httpVersions
  code : resp.statusCode_ ≠ .kUnknow
  message : CR ∉ resp.statusMessage_ ∧ LF ∉ resp.statusMessage_
  headers : ∀ header ∈ resp.headers_.entries, PlainHeader header

variable {resp : HttpResponse}

theorem code_length {code : HttpStatusCode} (h : code ≠ .kUnknow) :
    (bytes (toString code.code)).length = 3 := by
  cases code <;> first | exact absurd rfl h | rfl

/-- The version and the code fit into the buffer, and the message comes straight after them. -/
theorem statusLine_eq (h : resp.Plain) : resp.statusLine = resp.httpVersion_ ++
    32 :: (bytes (toString resp.statusCode_.code) ++ resp.statusMessage_) ++ crlf := by
  have hversions : ∀ version ∈ httpVersions,
    version.takeWhile (· ≠ 0) = version ∧ version.length = 8 := by decide
  obtain ⟨hwhole, hlength⟩ := hversions _ h.version
  rw [statusLine, hwhole, List.take_of_length_le]
  · simp [show bytes " " = [32] from rfl]
  · rw [List.length_append, List.length_append, hlength, code_length h.code]
    decide

theorem appendToBuffer_eq (resp : HttpResponse) : resp.appendToBuffer =
    resp.statusLine ++ (resp.parts.headers.flatMap headerText ++ crlf ++ resp.body_) := by
  have hconnection : connectionLine resp.closeConnection_ =
      headerText (bytes "Connection",
        bytes (if resp.closeConnection_ then "close" else "Keep-Alive")) := by
    cases resp.closeConnection_ <;> rfl
  rw [appendToBuffer, parts, List.flatMap_cons, hconnection,
    show (fun h : Bytes × Bytes => h.1 ++ bytes ": " ++ h.2 ++ crlf) = headerText from rfl]
  simp only [List.append_assoc]

theorem Plain.parts_headers (h : resp.Plain) : ∀ header ∈ resp.parts.headers,
    PlainHeader header := by
  refine List.forall_mem_cons.mpr ⟨?_, h.headers⟩
  cases resp.closeConnection_ <;> exact ⟨by decide, by decide⟩

/-- **Everything but the message is read as it was set**, once the message brings the blank
along that the status line is written without. -/
theorem readResponse_appendToBuffer (h : resp.Plain) : readResponse resp.appendToBuffer =
    (afterSpace resp.statusMessage_).map fun reason =>
      { resp.parts with
        reason
        headers := resp.parts.headers.map fun header => (header.1, trimOWS header.2) } := by
  have hversions : ∀ version ∈ httpVersions, 32 ∉ version ∧ CR ∉ version := by decide
  obtain ⟨hspace, hversion⟩ := hversions _ h.version
  have hdigits : (bytes (toString resp.statusCode_.code)).all isdigit = true :=
    List.all_eq_true.mpr fun _ hb => isdigit_of_mem_repr hb
  have hcr : CR ∉ resp.httpVersion_ ++
      32 :: (bytes (toString resp.statusCode_.code) ++ resp.statusMessage_) := by
    simp only [List.mem_append, List.mem_cons, not_or]
    refine ⟨hversion, by decide, fun hcode => ?_, h.message.1⟩
    exact absurd (List.all_eq_true.mp hdigits CR hcode) (by decide)
  have hstatus := readStatusLine_joined hspace (code_length h.code) hdigits resp.statusMessage_
  have hheaders := readHeaders_headerText h.parts_headers resp.body_
  rw [appendToBuffer_eq, statusLine_eq h, readResponse_line (readLine_line hcr _), hstatus,
    hheaders]
  cases afterSpace resp.statusMessage_ with
  | none => rfl
  | some reason =>
    have hcode : decimal (bytes (toString resp.statusCode_.code)) = resp.statusCode_.code :=
      decimal_repr _
    simp only [Option.map_some, Option.bind_some, hcode, parts]

theorem appendToBuffer_misread (h : resp.Plain) :
    readResponse resp.appendToBuffer ≠ some resp.parts := by
  rw [readResponse_appendToBuffer h]
  intro heq
  obtain ⟨reason, hreason, hparts⟩ := Option.map_eq_some_iff.mp heq
  have hmessage : reason = resp.statusMessage_ := congrArg ResponseParts.reason hparts
  have hlength := length_afterSpace hreason
  rw [hmessage] at hlength
  exact Nat.lt_irrefl _ hlength

/-- The response of a handler that has found what it was asked for. -/
def found : HttpResponse :=
  HttpResponse.setStatusLine {} .k200Ok (bytes "OK") (bytes "HTTP/1.1")

theorem found_plain : found.Plain where
  version := by decide
  code := by decide
  message := by decide
  headers := by simp [found, setStatusLine, StrMap.entries]

theorem appendToBuffer_misread_found : readResponse found.appendToBuffer ≠ some found.parts :=
  appendToBuffer_misread found_plain

theorem appendToBuffer_not_readable : ¬ ∀ resp : HttpResponse, resp.Plain →
    readResponse resp.appendToBuffer = some resp.parts := by
  intro h
  have hnone : afterSpace found.statusMessage_ = none := by decide
  have hread := h found found_plain
  rw [readResponse_appendToBuffer found_plain, hnone] at hread
  exact Option.some_ne_none _ hread.symm

end HttpResponse
end Workplace.Http
