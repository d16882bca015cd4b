import Mathlib.Data.List.Infix
import ScottyCore.Lib.Utf8

namespace Python
set_option autoImplicit true

/-- `fragment in s` -/
def contains (fragment s : String) : Bool :=
  fragment.toList <:+: s.toList

end Python

namespace ScottyCore
open Python
set_option autoImplicit true

/-! ## Requests and responses -/

/-- The body of a request as it arrives; not complete where the client goes away first. -/
structure RequestBody where
  chunks : List (List UInt8)
  complete : Bool

/-- `await request.body()`, which raises where the client went away. -/
def RequestBody.read (body : RequestBody) : Option (List UInt8) :=
  if body.complete then some body.chunks.flatten else none

structure HttpRequest where
  method : String
  path : String
  body : RequestBody

/-- A downstream response. Names of headers are in lower case; the body may fail after its chunks. -/
structure HttpResponse where
  status : Nat
  headers : List (String × String)
  names_lower : ∀ header ∈ headers, header.1.toList.map Char.toLower = header.1.toList
  chunks : List (List UInt8)
  failed : Bool

/-- An exception: the name of its type, its text and its formatted traceback. -/
structure Crash where
  type_name : String
  text : String
  traceback : String

/-- What is downstream of the middleware makes of a request. -/
inductive HandlerOutcome where
  | response (r : HttpResponse)
  | raised (e : Crash)

/-- What a client gets of a response. -/
structure Received where
  status : Nat
  headers : List (String × String)
  body : List UInt8

inductive ClientAnswer where
  | response (r : Received)
  | raised (e : Crash)

def HttpResponse.body (r : HttpResponse) : List UInt8 := r.chunks.flatten

def HttpResponse.received (r : HttpResponse) : Received := ⟨r.status, r.headers, r.body⟩

/-- What the client gets without the middleware. -/
def HandlerOutcome.answer : HandlerOutcome → ClientAnswer
  | .response r => .response r.received
  | .raised e => .raised e

/-! ## `core/request_logging.py` -/

inductive LogLevel where
  | info
  | warning
deriving DecidableEq

/-- The records of the middleware, without the time. -/
inductive LogRecord where
  | handled (level : LogLevel) (method path : String) (status : Nat)
  | request_body (method path preview : String)
  | response_body (status : Nat) (path preview : String)
  | crash (method path type_name text : String)
  | traceback (path tb : String)
deriving DecidableEq

structure RequestLogging where
  app_debug : Bool
  redact_paths : List String
  skip_prefixes : List String

/-- `body[:2000].decode("utf-8", errors="replace")` -/
def preview (body : List UInt8) : String :=
  decodeReplace (body.take 2000)

/-- `dict(response.headers)`: the first value of each name. -/
def dictHeaders : List (String × String) → List (String × String)
  | [] => []
  | header :: headers => header :: (dictHeaders headers).filter fun other => other.1 ≠ header.1

/-- The headers of a `Response` that is made from such a dict. -/
def rawHeaders (status : Nat) (headers : List (String × String)) (body : List UInt8) :
    List (String × String) :=
  if "content-length" ∈ headers.map Prod.fst ∨ status < 200 ∨ status = 204 ∨ status = 304 then
    headers
  else headers ++ [("content-length", toString body.length)]

namespace RequestLogging

def shouldSkip (mw : RequestLogging) (path : String) : Bool :=
  mw.skip_prefixes.any fun start => startsWith path start

def isSensitive (mw : RequestLogging) (path : String) : Bool :=
  mw.redact_paths.any fun fragment => contains fragment path

/-- `_log_request_body`: its records, and the body that downstream handlers see. -/
def logRequestBody (mw : RequestLogging) (request : HttpRequest) : List LogRecord × RequestBody :=
  match request.body.read with
  | none => ([], ⟨[], false⟩) -- what had arrived is used up
  | some body =>
    let shown := if mw.isSensitive request.path then "[REDACTED]" else preview body
    ([.request_body request.method request.path shown], ⟨[body], true⟩)

/-- `_log_response_body`: its records, and what the client gets. -/
def logResponseBody (response : HttpResponse) (path : String) : List LogRecord × Received :=
  if response.failed then
    -- the response that is returned has no chunks left
    ([], ⟨response.status, response.headers, []⟩)
  else
    ([.response_body response.status path (preview response.body)],
      ⟨response.status, rawHeaders response.status (dictHeaders response.headers) response.body,
        response.body⟩)

/-- What `dispatch` does with the request before it calls the next app. -/
def capture (mw : RequestLogging) (request : HttpRequest) : List LogRecord × RequestBody :=
  if mw.shouldSkip request.path then ([], request.body)
  else if mw.app_debug ∧ request.method ∈ ["POST", "PUT", "PATCH"] then mw.logRequestBody request
  else ([], request.body)

/-- What it does with what the next app makes of it. -/
def handle (mw : RequestLogging) (request : HttpRequest) :
    HandlerOutcome → List LogRecord × ClientAnswer
  | .response response =>
    if mw.shouldSkip request.path then ([], .response response.received)
    else
      let level := if response.status ≥ 400 then LogLevel.warning else LogLevel.info
      let record := LogRecord.handled level request.method request.path response.status
      if mw.app_debug ∧ response.status ≥ 400 then
        let (records, received) := logResponseBody response request.path
        (record :: records, .response received)
      else ([record], .response response.received)
  | .raised e =>
    if mw.shouldSkip request.path then ([], .raised e)
    else
      ([.crash request.method request.path e.type_name e.text, .traceback request.path e.traceback],
        .raised e)

/-- `dispatch` before a handler that reads the whole body, if it gets it. -/
def dispatch (mw : RequestLogging) (request : HttpRequest)
    (handler : Option (List UInt8) → HandlerOutcome) : List LogRecord × ClientAnswer :=
  let (captured, body) := mw.capture request
  let (records, answer) := mw.handle request (handler body.read)
  (captured ++ records, answer)

end RequestLogging

/-! ## What the log tells of a sensitive body -/

/-- The same status, or exceptions of the same type. -/
def SameKind : HandlerOutcome → HandlerOutcome → Prop
  | .response r, .response r' => r.status = r'.status
  | .raised e, .raised e' => e.type_name = e'.type_name
  | _, _ => False

/-- What an error response shows of its body. -/
def HttpResponse.shown (r : HttpResponse) : Option String :=
  if r.failed then none else some (preview r.body)

/-- Two outcomes that the middleware writes down alike. -/
def LoggedAlike (mw : RequestLogging) : HandlerOutcome → HandlerOutcome → Prop
  | .response r, .response r' => mw.app_debug = false ∨ r.status < 400 ∨ r.shown = r'.shown
  | .raised e, .raised e' => e.text = e'.text ∧ e.traceback = e'.traceback
  | _, _ => False

namespace RequestLogging

variable {mw : RequestLogging} {request request' : HttpRequest}

theorem records_logResponseBody (r : HttpResponse) (path : String) :
    (logResponseBody r path).1 = (r.shown.map (LogRecord.response_body r.status path)).toList := by
  rw [logResponseBody, HttpResponse.shown]
  split
  · rfl
  · rfl

/-- The records of a response: one line, and what an error shows in debug mode. -/
theorem records_handle_response (h : mw.shouldSkip request.path = false) (r : HttpResponse) :
    (mw.handle request (.response r)).1 =
      .handled (if r.status ≥ 400 then .warning else .info) request.method request.path r.status ::
        if mw.app_debug = true ∧ r.status ≥ 400 then
          (r.shown.map (LogRecord.response_body r.status request.path)).toList
        else [] := by
  rw [handle, h]
  by_cases herror : mw.app_debug = true ∧ r.status ≥ 400
  · simp only [if_pos herror, Bool.false_eq_true, if_false, records_logResponseBody]
  · simp only [if_neg herror, Bool.false_eq_true, if_false]

theorem records_handle_raised (h : mw.shouldSkip request.path = false) (e : Crash) :
    (mw.handle request (.raised e)).1 =
      [.crash request.method request.path e.type_name e.text,
        .traceback request.path e.traceback] := by
  rw [handle, h]
  rfl

/-- Nothing is written of a path that is skipped. -/
theorem records_handle_skipped (h : mw.shouldSkip request.path = true) (o : HandlerOutcome) :
    (mw.handle request o).1 = [] := by
  cases o with
  | response r => rw [handle, if_pos h]
  | raised e => rw [handle, if_pos h]

theorem toList_map_inj {f : α → β} (hf : Function.Injective f) {o o' : Option α} :
    (o.map f).toList = (o'.map f).toList ↔ o = o' := by
  cases o with
  | none =>
    cases o' with
    | none => exact iff_of_true rfl rfl
    | some y => exact iff_of_false (fun h => nomatch h) (fun h => nomatch h)
  | some x =>
    cases o' with
    | none => exact iff_of_false (fun h => nomatch h) (fun h => nomatch h)
    | some y => simp [hf.eq_iff]

theorem records_handle_iff (hskip : mw.shouldSkip request.path = false) {o o' : HandlerOutcome}
    (hkind : SameKind o o') (hmethod : request.method = request'.method)
    (hpath : request.path = request'.path) :
    (mw.handle request o).1 = (mw.handle request' o').1 ↔ LoggedAlike mw o o' := by
  have hskip' : mw.shouldSkip request'.path = false := hpath ▸ hskip
  cases o with
  | response r =>
    cases o' with
    | raised e' => exact hkind.elim
    | response r' =>
      have hstatus : r.status = r'.status := hkind
      rw [records_handle_response hskip, records_handle_response hskip', hmethod, hpath, hstatus,
        LoggedAlike, hstatus]
      by_cases herror : mw.app_debug = true ∧ r'.status ≥ 400
      · have hbody : Function.Injective (LogRecord.response_body r'.status request'.path) :=
          fun _ _ h => (LogRecord.response_body.inj h).2.2
        rw [if_pos herror, if_pos herror, List.cons.injEq, toList_map_inj hbody]
        constructor
        · exact fun h => .inr (.inr h.2)
        · rintro (hdebug | hstatus' | hshown)
          · rw [hdebug] at herror
            cases herror.1
          · exact (Nat.not_lt.2 herror.2 hstatus').elim
          · exact ⟨rfl, hshown⟩
      · rw [if_neg herror, if_neg herror]
        refine iff_of_true rfl ?_
        rw [Classical.not_and_iff_not_or_not, Bool.not_eq_true, Nat.not_le] at herror
        exact herror.imp_right .inl
  | raised e =>
    cases o' with
    | response r' => exact hkind.elim
    | raised e' =>
      have htype : e.type_name = e'.type_name := hkind
      rw [records_handle_raised hskip, records_handle_raised hskip', hmethod, hpath, htype,
        LoggedAlike]
      simp

/-- Of a sensitive body the request's record says nothing. -/
theorem capture_sensitive (h : mw.isSensitive path = true) (method : String)
    (chunks chunks' : List (List UInt8)) :
    (mw.capture ⟨method, path, ⟨chunks, true⟩⟩).1 =
      (mw.capture ⟨method, path, ⟨chunks', true⟩⟩).1 := by
  simp only [capture, logRequestBody, RequestBody.read, h, if_true]
  split
  · rfl
  · split
    · rfl
    · rfl

/-- Downstream reads what would have arrived. -/
theorem read_capture (mw : RequestLogging) (request : HttpRequest) :
    (mw.capture request).2.read = request.body.read := by
  have hlogged : (mw.logRequestBody request).2.read = request.body.read := by
    rw [logRequestBody]
    cases request.body.read with
    | none => rfl
    | some body => exact congrArg some (List.append_nil body)
  rw [capture]
  split
  · rfl
  · split
    · exact hlogged
    · rfl

end RequestLogging

/-- Bodies of a sensitive path leave the same records where the error shown for them, and the
exception raised for them, are the same. -/
theorem sameRecords_iff (mw : RequestLogging) (method path : String)
    (handler : Option (List UInt8) → HandlerOutcome) (chunks chunks' : List (List UInt8))
    (hsensitive : mw.isSensitive path = true)
    (hkind : SameKind (handler (some chunks.flatten)) (handler (some chunks'.flatten))) :
    (mw.dispatch ⟨method, path, ⟨chunks, true⟩⟩ handler).1 =
        (mw.dispatch ⟨method, path, ⟨chunks', true⟩⟩ handler).1 ↔
      mw.shouldSkip path = true ∨
        LoggedAlike mw (handler (some chunks.flatten)) (handler (some chunks'.flatten)) := by
  have hrecords : ∀ request, (mw.dispatch request handler).1 =
      (mw.capture request).1 ++ (mw.handle request (handler request.body.read)).1 := by
    intro request
    rw [← mw.read_capture request]
    rfl
  rw [hrecords, hrecords, RequestLogging.capture_sensitive hsensitive method chunks chunks',
    List.append_cancel_left_eq]
  by_cases hskip : mw.shouldSkip path = true
  · rw [RequestLogging.records_handle_skipped hskip, RequestLogging.records_handle_skipped hskip]
    exact iff_of_true rfl (.inl hskip)
  · rw [or_iff_right hskip]
    exact RequestLogging.records_handle_iff (Bool.eq_false_iff.2 hskip) hkind rfl rfl

/-- The defaults of the middleware, in debug mode. -/
def debugLogging : RequestLogging := ⟨true, ["/auth/", "/vault/", "/password"], ["/static/", "/ws/"]⟩

/-- A handler that answers every body with the same error. -/
def rejecting (_ : Option (List UInt8)) : HandlerOutcome :=
  .response ⟨401, [], by decide, [[123, 125]], false⟩

/-- A handler whose validation error repeats the body. -/
def echoing (body : Option (List UInt8)) : HandlerOutcome :=
  .response ⟨422, [], by decide, body.toList, false⟩

theorem rejected_login_alike :
    (debugLogging.dispatch ⟨"POST", "/api/v1/auth/login", ⟨[[97]], true⟩⟩ rejecting).1 =
      (debugLogging.dispatch ⟨"POST", "/api/v1/auth/login", ⟨[[98]], true⟩⟩ rejecting).1 := by
  apply (sameRecords_iff debugLogging "POST" "/api/v1/auth/login" rejecting [[97]] [[98]]
    (by decide +kernel) rfl).2
  exact .inr (.inr (.inr rfl))

/-- What is shown of an error response repeats a sensitive body. -/
theorem echoed_login_differs :
    debugLogging.isSensitive "/api/v1/auth/login" = true ∧
      SameKind (echoing (some [97])) (echoing (some [98])) ∧
      (debugLogging.dispatch ⟨"POST", "/api/v1/auth/login", ⟨[[97]], true⟩⟩ echoing).1 ≠
        (debugLogging.dispatch ⟨"POST", "/api/v1/auth/login", ⟨[[98]], true⟩⟩ echoing).1 := by
  refine ⟨by decide +kernel, rfl, ?_⟩
  decide +kernel

/-! ## What the client gets -/

inductive SameAnswer : ClientAnswer → ClientAnswer → Prop
  | response {r r' : Received} (status : r.status = r'.status) (headers : r.headers.Perm r'.headers)
      (body : r.body = r'.body) : SameAnswer (.response r) (.response r')
  | raised (e : Crash) : SameAnswer (.raised e) (.raised e)

/-- The handler reads the same body and the client gets the same answer as without the middleware. -/
structure Transparent (mw : RequestLogging) (request : HttpRequest)
    (handler : Option (List UInt8) → HandlerOutcome) : Prop where
  read : (mw.capture request).2.read = request.body.read
  answer : SameAnswer (mw.dispatch request handler).2 (handler request.body.read).answer

/-- What can be read and rebuilt: a response whose names of headers are distinct, the length among
them; of one that fails halfway, nothing may have been sent. -/
def Rebuildable (r : HttpResponse) : Prop :=
  if r.failed then r.body = []
  else (r.headers.map Prod.fst).Nodup ∧ "content-length" ∈ r.headers.map Prod.fst

/-- Exceptions pass, and responses that are not rebuilt or can be. -/
def Passes (mw : RequestLogging) : HandlerOutcome → Prop
  | .response r => mw.app_debug = false ∨ r.status < 400 ∨ Rebuildable r
  | .raised _ => True

theorem SameAnswer.refl (a : ClientAnswer) : SameAnswer a a := by
  cases a with
  | response r => exact .response rfl (.refl _) rfl
  | raised e => exact .raised e

theorem sameAnswer_response_iff {r r' : Received} : SameAnswer (.response r) (.response r') ↔
    r.status = r'.status ∧ r.headers.Perm r'.headers ∧ r.body = r'.body := by
  constructor
  · intro h
    cases h with
    | response status headers body => exact ⟨status, headers, body⟩
  · rintro ⟨status, headers, body⟩
    exact .response status headers body

section
variable {headers : List (String × String)}

theorem fst_mem_dictHeaders (h : name ∈ (dictHeaders headers).map Prod.fst) :
    name ∈ headers.map Prod.fst := by
  induction headers with
  | nil => exact h
  | cons header headers ih =>
    rw [dictHeaders, List.map_cons, List.mem_cons] at h
    rw [List.map_cons, List.mem_cons]
    apply h.imp_right
    intro hname
    exact ih ((List.filter_sublist.map _).subset hname)

theorem mem_dictHeaders (h : name ∈ headers.map Prod.fst) :
    name ∈ (dictHeaders headers).map Prod.fst := by
  induction headers with
  | nil => exact h
  | cons header headers ih =>
    rw [dictHeaders, List.map_cons, List.mem_cons]
    by_cases hname : name = header.1
    · exact .inl hname
    · right
      obtain ⟨other, hother, rfl⟩ := List.mem_map.1
        (ih ((List.mem_cons.1 h).resolve_left hname))
      exact List.mem_map_of_mem (List.mem_filter.2 ⟨hother, decide_eq_true hname⟩)

theorem nodup_dictHeaders (headers : List (String × String)) :
    ((dictHeaders headers).map Prod.fst).Nodup := by
  induction headers with
  | nil => exact List.nodup_nil
  | cons header headers ih =>
    rw [dictHeaders, List.map_cons, List.nodup_cons]
    constructor
    · intro hmem
      obtain ⟨other, hother, heq⟩ := List.mem_map.1 hmem
      exact of_decide_eq_true (List.mem_filter.1 hother).2 heq
    · exact ih.sublist (List.filter_sublist.map _)

theorem dictHeaders_of_nodup (h : (headers.map Prod.fst).Nodup) : dictHeaders headers = headers := by
  induction headers with
  | nil => rfl
  | cons header headers ih =>
    rw [List.map_cons, List.nodup_cons] at h
    rw [dictHeaders, ih h.2, List.filter_eq_self.2]
    intro other hother
    apply decide_eq_true
    intro heq
    exact h.1 (heq ▸ List.mem_map_of_mem hother)

/-- The rebuilt headers are the given ones where no name is repeated and the length is there. -/
theorem rawHeaders_perm_iff {status : Nat} (h : status ≥ 400) (body : List UInt8) :
    (rawHeaders status (dictHeaders headers) body).Perm headers ↔
      (headers.map Prod.fst).Nodup ∧ "content-length" ∈ headers.map Prod.fst := by
  have hstatus : ¬ (status < 200 ∨ status = 204 ∨ status = 304) := by omega
  rw [rawHeaders]
  by_cases hlength : "content-length" ∈ (dictHeaders headers).map Prod.fst
  · rw [if_pos (.inl hlength), and_iff_left (fst_mem_dictHeaders hlength)]
    constructor
    · intro hperm
      exact (hperm.map Prod.fst).nodup_iff.1 (nodup_dictHeaders headers)
    · intro hnodup
      rw [dictHeaders_of_nodup hnodup]
  · rw [if_neg (fun h => h.elim hlength hstatus)]
    apply iff_of_false
    · intro hperm
      have hadded : "content-length" ∈ headers.map Prod.fst :=
        List.mem_map_of_mem (hperm.mem_iff.1 (List.mem_append_right _ List.mem_cons_self))
      exact hlength (mem_dictHeaders hadded)
    · exact fun hboth => hlength (mem_dictHeaders hboth.2)

end

theorem answer_logResponseBody {r : HttpResponse} (h : r.status ≥ 400) (path : String) :
    SameAnswer (.response (RequestLogging.logResponseBody r path).2) (.response r.received) ↔
      Rebuildable r := by
  rw [sameAnswer_response_iff, RequestLogging.logResponseBody, Rebuildable]
  by_cases hfailed : r.failed = true
  · rw [if_pos hfailed, if_pos hfailed]
    constructor
    · exact fun h => h.2.2.symm
    · exact fun h => ⟨rfl, .refl _, h.symm⟩
  · rw [if_neg hfailed, if_neg hfailed, ← rawHeaders_perm_iff h r.body]
    constructor
    · exact fun h => h.2.1
    · exact fun h => ⟨rfl, h, rfl⟩

theorem RequestLogging.answer_handle_iff (mw : RequestLogging) (request : HttpRequest)
    (o : HandlerOutcome) : SameAnswer (mw.handle request o).2 o.answer ↔
      mw.shouldSkip request.path = true ∨ Passes mw o := by
  by_cases hskip : mw.shouldSkip request.path = true
  · refine iff_of_true ?_ (.inl hskip)
    cases o with
    | response r =>
      rw [handle, if_pos hskip]
      exact .refl _
    | raised e =>
      rw [handle, if_pos hskip]
      exact .refl _
  rw [or_iff_right hskip]
  cases o with
  | raised e =>
    rw [handle, if_neg hskip]
    exact iff_of_true (.refl _) trivial
  | response r =>
    rw [handle, if_neg hskip, Passes, HandlerOutcome.answer]
    by_cases herror : mw.app_debug = true ∧ r.status ≥ 400
    · have hno : ¬ (mw.app_debug = false ∨ r.status < 400) := by
        rintro (h | h)
        · rw [h] at herror
          cases herror.1
        · exact Nat.not_lt.2 herror.2 h
      rw [if_pos herror, ← or_assoc, or_iff_right hno]
      exact answer_logResponseBody herror.2 request.path
    · rw [if_neg herror]
      refine iff_of_true (.refl _) ?_
      rw [Classical.not_and_iff_not_or_not, Bool.not_eq_true, Nat.not_le] at herror
      exact herror.imp_right .inl

theorem transparent_iff (mw : RequestLogging) (request : HttpRequest)
    (handler : Option (List UInt8) → HandlerOutcome) :
    Transparent mw request handler ↔
      mw.shouldSkip request.path = true ∨ Passes mw (handler request.body.read) := by
  have hread := mw.read_capture request
  have hanswer : (mw.dispatch request handler).2 =
      (mw.handle request (handler request.body.read)).2 := by
    rw [← hread]
    rfl
  rw [← mw.answer_handle_iff request, ← hanswer]
  constructor
  · exact fun h => h.answer
  · exact fun h => ⟨hread, h⟩

def ClientAnswer.headers : ClientAnswer → List (String × String)
  | .response r => r.headers
  | .raised _ => []

theorem SameAnswer.headers (h : SameAnswer a a') : a.headers.Perm a'.headers := by
  cases h with
  | response status headers body => exact headers
  | raised e => exact .refl _

/-- A failed request that clears two cookies. -/
def settingCookies (_ : Option (List UInt8)) : HandlerOutcome :=
  .response ⟨401, [("set-cookie", "session=; Max-Age=0"), ("set-cookie", "refresh=; Max-Age=0"),
    ("content-length", "2")], by decide +kernel, [[123, 125]], false⟩

theorem second_cookie_lost :
    ¬ Transparent debugLogging ⟨"GET", "/api/v1/users/me", ⟨[], true⟩⟩ settingCookies := by
  intro h
  have hheaders := h.answer.headers
  revert hheaders
  decide +kernel

end ScottyCore
