/-
# The limit of an upload

`UploadRequestLimitMiddleware` stands between a server and an application: it hands on the
messages of the request until their bodies are too large, and then ends the request towards the
application, swallows what it still sends and answers 413 itself.

What the application has sent before that has gone out.  `respected_iff` says that this is all
that can go wrong: the client is answered once exactly when the limit is not exceeded after the
application has begun to answer.
-/
import ProductPdfQr.Effect.Prog
import ProductPdfQr.Json.Codec
import ProductPdfQr.Text
import Mathlib.Algebra.GroupWithZero.Nat

namespace ProductPdfQr.UploadLimit

open Effect

/-! ## 1. Messages -/

/-- The messages of an HTTP request and of its response. -/
inductive Message
  | request (body : Bytes) (moreBody : Bool)
  | disconnect
  | responseStart (status : Nat) (headers : List (String × String))
  | responseBody (body : Bytes) (moreBody : Bool)
  /-- Any other type of message. -/
  | other (type : String)

/-- What an application calls. -/
inductive Call
  | receive
  | send (message : Message)

def Reply : Call → Type
  | .receive => Message
  | .send _ => Unit

/-- An application that may raise an `ε`: its exceptions that it catches itself are part of how
it goes on. -/
abbrev App (ε : Type) := Prog Call Reply ε Unit

/-- A connection: the messages that are still to come, and those that the client has seen. -/
structure Connection where
  incoming : List Message
  seen : List Message

/-- The next message; after the last one the client is gone. -/
def Connection.receive (c : Connection) : Message × Connection :=
  match c.incoming with
  | [] => (.disconnect, c)
  | message :: rest => (message, { c with incoming := rest })

def Connection.send (c : Connection) (message : Message) : Connection :=
  { c with seen := c.seen ++ [message] }

/-! ## 2. Requests -/

/-- What the middleware reads of a scope. -/
structure Scope where
  type : String
  method : Option String
  path : String
  headers : List (String × String)

/-- `^/api/products/(?P<product_id>[^/]+)/pdf$`. -/
def isPdfUploadPath (path : String) : Bool :=
  match Text.split '/' path.toList with
  | [root, api, products, productId, pdf] =>
    root = [] && api = "api".toList && products = "products".toList && productId ≠ [] &&
      pdf = "pdf".toList
  | _ => false

def productImportPaths : List String := ["/api/product-imports", "/admin/imports"]

/-- `_is_pdf_upload`. -/
def isPdfUpload (scope : Scope) : Bool :=
  scope.type = "http" && scope.method = some "POST" && isPdfUploadPath scope.path

/-- `_is_product_import`. -/
def isProductImport (scope : Scope) : Bool :=
  scope.type = "http" && scope.method = some "POST" && productImportPaths.contains scope.path

/-- The limits that are configured. -/
structure Limits where
  configuredMaxPdfBytes : Option Nat
  maxPdfBytes : Nat
  importMaxUploadBytes : Nat
  multipartOverheadBytes : Nat := 64 * 1024

def maxPayloadBytes (limits : Limits) (scope : Scope) : Nat :=
  limits.configuredMaxPdfBytes.getD
    (if isPdfUpload scope then limits.maxPdfBytes else limits.importMaxUploadBytes)

def maxRequestBytes (limits : Limits) (scope : Scope) : Nat :=
  maxPayloadBytes limits scope + limits.multipartOverheadBytes

/-- What stands outside: `int()` of a header, the identifier of the request, and the JSON of an
error of this code and message. -/
structure Surroundings where
  int : String → Option Int
  requestId : String
  errorJson : (code message : String) → Bytes

/-- `_content_length`: the first header of that name decides. -/
def contentLength (s : Surroundings) (scope : Scope) : Option Nat :=
  match scope.headers.find? fun header => header.1.toLower = "content-length" with
  | none => none
  | some (_, value) => match s.int value with
    | none => none
    | some parsed => if 0 ≤ parsed then some parsed.toNat else none

/-! ## 3. The middleware -/

/-- The detail of the audit of a rejection. -/
structure RejectionDetail where
  reason : String
  stage : String
  /-- `declared_content_length`, or `received_bytes_before_abort`. -/
  bytes : Nat
  maxPayloadBytes : Option Nat

/-- What `__call__` and the two functions it hands on share, and what the application was
handed. -/
structure Wrapped where
  connection : Connection
  receivedBytes : Nat := 0
  tooLarge : Bool := false
  passed : List Message := []

/-- `limited_receive`. -/
def limitedReceive (maxBytes : Nat) (w : Wrapped) : Message × Wrapped :=
  if w.tooLarge then (.disconnect, { w with passed := w.passed ++ [.disconnect] })
  else
    let (message, connection) := w.connection.receive
    let w := { w with connection }
    match message with
    | .request body _ =>
      let w := { w with receivedBytes := w.receivedBytes + body.size }
      if maxBytes < w.receivedBytes then
        (.disconnect, { w with tooLarge := true, passed := w.passed ++ [.disconnect] })
      else (message, { w with passed := w.passed ++ [message] })
    | _ => (message, { w with passed := w.passed ++ [message] })

/-- `tracked_send`. -/
def trackedSend (message : Message) (w : Wrapped) : Wrapped :=
  if w.tooLarge then w else { w with connection := w.connection.send message }

/-- What the calls of the inner application do. -/
def limited (maxBytes : Nat) : Machine Call Reply Wrapped where
  step
    | .receive, w => limitedReceive maxBytes w
    | .send message, w => ((), trackedSend message w)

def rejectionHeaders (s : Surroundings) : List (String × String) :=
  [("Connection", "close"), ("X-Request-ID", s.requestId)]

def rejectionBody (s : Surroundings) (scope : Scope) : Bytes :=
  if productImportPaths.contains scope.path then
    s.errorJson "xlsx_too_large" "文件超过 10 MB 上限。"
  else s.errorJson "pdf_too_large" "PDF 文件不得超过 50 MB。"

/-- `_reject`: the response sends its start and its body. -/
def reject (s : Surroundings) (scope : Scope) (connection : Connection) : Connection :=
  (connection.send (.responseStart 413 (rejectionHeaders s))).send
    (.responseBody (rejectionBody s scope) false)

/-- How a request ended: what was raised, what the application was handed, whether the limit was
exceeded while it read, what was audited, and the connection. -/
structure Ended (ε : Type) where
  result : Except ε Unit
  passed : List Message
  overrun : Bool
  audit : Option RejectionDetail
  connection : Connection

/-- `__call__`, for an upload. -/
def callUpload {ε : Type} (s : Surroundings) (limits : Limits) (scope : Scope) (app : App ε)
    (incoming : List Message) : Ended ε :=
  let maxBytes := maxRequestBytes limits scope
  let detail (reason : String) (bytes : Nat) : RejectionDetail :=
    { reason, stage := "pre_parser_size", bytes
      maxPayloadBytes :=
        if isProductImport scope then some (maxPayloadBytes limits scope) else none }
  let rejectDeclared (declared : Nat) : Ended ε :=
    { result := .ok ()
      passed := []
      overrun := false
      audit := some (detail "content_length_exceeded" declared)
      connection := reject s scope ⟨incoming, []⟩ }
  match (contentLength s scope).filter (maxBytes < ·) with
  | some declared => rejectDeclared declared
  | none =>
    let (result, w) := app.run (limited maxBytes) { connection := ⟨incoming, []⟩ }
    if w.tooLarge then
      { result := .ok ()
        passed := w.passed
        overrun := true
        audit := some (detail "chunked_stream_exceeded" w.receivedBytes)
        connection := reject s scope w.connection }
    else
      { result, passed := w.passed, overrun := false, audit := none, connection := w.connection }

/-- What the calls do for any other request. -/
def unlimited : Machine Call Reply Wrapped where
  step
    | .receive, w =>
      let (message, connection) := w.connection.receive
      (message, { w with connection, passed := w.passed ++ [message] })
    | .send message, w => ((), { w with connection := w.connection.send message })

/-- `__call__`. -/
def call {ε : Type} (s : Surroundings) (limits : Limits) (scope : Scope) (app : App ε)
    (incoming : List Message) : Ended ε :=
  if isPdfUpload scope || isProductImport scope then callUpload s limits scope app incoming
  else
    let (result, w) := app.run unlimited { connection := ⟨incoming, []⟩ }
    { result, passed := w.passed, overrun := false, audit := none, connection := w.connection }

/-- The requests that are limited. -/
abbrev Upload := { scope : Scope // (isPdfUpload scope || isProductImport scope) = true }

/-! ## 4. What the client is promised -/

def Message.isStart : Message → Bool
  | .responseStart _ _ => true
  | _ => false

/-- The body message that ends a response. -/
def Message.isFinal : Message → Bool
  | .responseBody _ moreBody => !moreBody
  | _ => false

def Message.bodyBytes : Message → Nat
  | .request body _ => body.size
  | _ => 0

/-- At most one start, and nothing after the final body. -/
structure Answered (messages : List Message) : Prop where
  one_start : messages.countP Message.isStart ≤ 1
  nothing_after : ∀ message ∈ messages.dropLast, message.isFinal = false

/-- One complete response, of status 413. -/
def Rejected (messages : List Message) : Prop :=
  ∃ before headers body,
    messages = before ++ [.responseStart 413 headers, .responseBody body false] ∧
      ∀ message ∈ before, message.isStart = false

/-- What the application sends on a connection of its own until it has read more than the limit,
and whether it gets there. -/
def alone {ε : Type} (maxBytes : Nat) : App ε → List Message → Nat → List Message × Bool
  | .ret _, _, _ => ([], false)
  | .raise _, _, _ => ([], false)
  | .call .receive k, [], received => alone maxBytes (k .disconnect) [] received
  | .call .receive k, message :: rest, received =>
    if maxBytes < received + message.bodyBytes then ([], true)
    else alone maxBytes (k message) rest (received + message.bodyBytes)
  | .call (.send message) k, incoming, received =>
    (message :: (alone maxBytes (k ()) incoming received).1,
      (alone maxBytes (k ()) incoming received).2)

/-- The promises of the middleware, of an application that has sent these messages before it has
read too much. -/
structure Respected {ε : Type} (maxBytes : Nat) (sent : List Message) (e : Ended ε) : Prop where
  bytes : (e.passed.map Message.bodyBytes).sum ≤ maxBytes
  answered : Answered e.connection.seen
  rejected : e.overrun = true → (∀ message ∈ sent, message.isStart = false) →
    Rejected e.connection.seen

/-! ## 5. The application behind the limit -/

variable {ε : Type} {maxBytes : Nat}

/-- The bytes that the application was handed. -/
def Wrapped.passedBytes (w : Wrapped) : Nat := (w.passed.map Message.bodyBytes).sum

theorem passedBytes_snoc (passed : List Message) (message : Message) :
    ((passed ++ [message]).map Message.bodyBytes).sum =
      (passed.map Message.bodyBytes).sum + message.bodyBytes := by
  rw [List.map_append, List.sum_append, List.map_singleton, List.sum_singleton]

theorem passedBytes_disconnect (passed : List Message) :
    ((passed ++ [Message.disconnect]).map Message.bodyBytes).sum =
      (passed.map Message.bodyBytes).sum := by
  rw [passedBytes_snoc]
  rfl

/-- After the overrun nothing goes through, in either direction. -/
theorem run_tooLarge (app : App ε) {w : Wrapped} (h : w.tooLarge = true) :
    (app.run (limited maxBytes) w).2.tooLarge = true ∧
      (app.run (limited maxBytes) w).2.connection.seen = w.connection.seen ∧
      (app.run (limited maxBytes) w).2.passedBytes = w.passedBytes := by
  induction app generalizing w with
  | ret _ => exact ⟨h, rfl, rfl⟩
  | raise _ => exact ⟨h, rfl, rfl⟩
  | call c k ih =>
    cases c with
    | receive =>
      have hstep : (limited maxBytes).step .receive w =
          (.disconnect, { w with passed := w.passed ++ [.disconnect] }) := if_pos h
      rw [Prog.run, hstep]
      obtain ⟨htoo, hseen, hbytes⟩ :=
        ih Message.disconnect (w := { w with passed := w.passed ++ [.disconnect] }) h
      exact ⟨htoo, hseen, hbytes.trans (passedBytes_disconnect _)⟩
    | send message =>
      have hstep : (limited maxBytes).step (.send message) w = ((), w) := by
        change ((), trackedSend message w) = ((), w)
        rw [trackedSend, if_pos h]
      rw [Prog.run, hstep]
      exact ih () h

theorem limitedReceive_nil {w : Wrapped} (h : w.tooLarge = false)
    (hincoming : w.connection.incoming = []) :
    limitedReceive maxBytes w =
      (.disconnect, { w with passed := w.passed ++ [.disconnect] }) := by
  have hreceive : w.connection.receive = (.disconnect, w.connection) := by
    rw [Connection.receive, hincoming]
  rw [limitedReceive, if_neg (by rw [h]; exact Bool.false_ne_true), hreceive]

/-- The next message is handed on with its bytes counted, unless they are too many. -/
theorem limitedReceive_cons {w : Wrapped} (h : w.tooLarge = false)
    (hroom : w.receivedBytes ≤ maxBytes) {message : Message} {rest : List Message}
    (hincoming : w.connection.incoming = message :: rest) :
    limitedReceive maxBytes w =
      if maxBytes < w.receivedBytes + message.bodyBytes then
        (.disconnect,
          { connection := ⟨rest, w.connection.seen⟩
            receivedBytes := w.receivedBytes + message.bodyBytes
            tooLarge := true
            passed := w.passed ++ [.disconnect] })
      else
        (message,
          { connection := ⟨rest, w.connection.seen⟩
            receivedBytes := w.receivedBytes + message.bodyBytes
            tooLarge := false
            passed := w.passed ++ [message] }) := by
  have hreceive : w.connection.receive = (message, ⟨rest, w.connection.seen⟩) := by
    rw [Connection.receive, hincoming]
  rw [limitedReceive, if_neg (by rw [h]; exact Bool.false_ne_true), hreceive, h]
  cases message with
  | request body moreBody => rfl
  | _ => exact (if_neg (not_lt.mpr hroom)).symm

/-- Up to the overrun the application goes on as it would alone. -/
theorem run_limited (app : App ε) {w : Wrapped} (h : w.tooLarge = false)
    (hroom : w.receivedBytes ≤ maxBytes) (hpassed : w.passedBytes = w.receivedBytes) :
    let sent := alone maxBytes app w.connection.incoming w.receivedBytes
    (app.run (limited maxBytes) w).2.tooLarge = sent.2 ∧
      (app.run (limited maxBytes) w).2.connection.seen = w.connection.seen ++ sent.1 ∧
      (app.run (limited maxBytes) w).2.passedBytes ≤ maxBytes := by
  induction app generalizing w with
  | ret _ => exact ⟨h, (List.append_nil _).symm, hpassed.trans_le hroom⟩
  | raise _ => exact ⟨h, (List.append_nil _).symm, hpassed.trans_le hroom⟩
  | call c k ih =>
    cases c with
    | receive =>
      have hstep : (limited maxBytes).step .receive w = limitedReceive maxBytes w := rfl
      rw [Prog.run, hstep]
      cases hincoming : w.connection.incoming with
      | nil =>
        rw [limitedReceive_nil h hincoming]
        have := ih Message.disconnect (w := { w with passed := w.passed ++ [.disconnect] }) h hroom
          ((passedBytes_disconnect _).trans hpassed)
        rw [show ({ w with passed := w.passed ++ [.disconnect] } : Wrapped).connection.incoming = []
          from hincoming] at this
        exact this
      | cons message rest =>
        rw [limitedReceive_cons h hroom hincoming]
        dsimp only [alone]
        split
        · obtain ⟨htoo, hseen, hbytes⟩ := @run_tooLarge ε maxBytes (k Message.disconnect)
            ⟨⟨rest, w.connection.seen⟩, w.receivedBytes + message.bodyBytes, true,
              w.passed ++ [.disconnect]⟩ rfl
          refine ⟨htoo, hseen.trans (List.append_nil _).symm, ?_⟩
          rw [hbytes]
          exact ((passedBytes_disconnect _).trans hpassed).trans_le hroom
        · next hfits =>
          exact ih message (w := ⟨⟨rest, w.connection.seen⟩, w.receivedBytes + message.bodyBytes,
            false, w.passed ++ [message]⟩) rfl (not_lt.mp hfits)
            ((passedBytes_snoc _ _).trans (congrArg (· + message.bodyBytes) hpassed))
    | send message =>
      have hstep : (limited maxBytes).step (.send message) w =
          ((), { w with connection := w.connection.send message }) := by
        change ((), trackedSend message w) = _
        rw [trackedSend, if_neg (by rw [h]; exact Bool.false_ne_true)]
      rw [Prog.run, hstep]
      obtain ⟨htoo, hseen, hbytes⟩ :=
        ih () (w := { w with connection := w.connection.send message }) h hroom hpassed
      refine ⟨htoo, hseen.trans ?_, hbytes⟩
      exact List.append_assoc _ [message] _

/-! ## 6. The answer -/

/-- What the application has sent can be the whole answer; or it has not begun one, and is cut
off. -/
def Orderly (sent : List Message × Bool) : Prop :=
  if sent.2 then ∀ message ∈ sent.1, message.isStart = false ∧ message.isFinal = false
  else Answered sent.1

theorem reject_seen (s : Surroundings) (scope : Scope) (connection : Connection) :
    (reject s scope connection).seen = connection.seen ++
      [.responseStart 413 (rejectionHeaders s), .responseBody (rejectionBody s scope) false] :=
  List.append_assoc _ _ _

/-- A rejection goes out in order behind messages that have neither started nor ended a
response, and behind no others. -/
theorem answered_reject_iff {before : List Message} {headers : List (String × String)}
    {body : Bytes} :
    Answered (before ++ [.responseStart 413 headers, .responseBody body false]) ↔
      ∀ message ∈ before, message.isStart = false ∧ message.isFinal = false := by
  have hlast : (before ++ [Message.responseStart 413 headers, .responseBody body false]).dropLast =
      before ++ [Message.responseStart 413 headers] := by
    rw [List.dropLast_append_of_ne_nil (List.cons_ne_nil _ _)]
    rfl
  have hcount : (before ++ [Message.responseStart 413 headers, .responseBody body false]).countP
      Message.isStart = before.countP Message.isStart + 1 := by
    rw [List.countP_append]
    rfl
  constructor
  · intro h message hmem
    constructor
    · have hone := h.one_start
      rw [hcount] at hone
      have hnone := List.countP_eq_zero.mp (Nat.eq_zero_of_le_zero (Nat.le_of_succ_le_succ hone))
      simpa using hnone message hmem
    · refine h.nothing_after message ?_
      rw [hlast]
      exact List.mem_append_left _ hmem
  · intro h
    have hnone : before.countP Message.isStart = 0 :=
      List.countP_eq_zero.mpr fun message hmem => by simp [(h message hmem).1]
    refine ⟨by rw [hcount, hnone], ?_⟩
    rw [hlast]
    intro message hmem
    rcases List.mem_append.mp hmem with hmem | hmem
    · exact (h message hmem).2
    · rw [List.mem_singleton.mp hmem]
      rfl

theorem callUpload_respected_iff (s : Surroundings) (limits : Limits) (scope : Scope)
    (app : App ε) (incoming : List Message) :
    Respected (maxRequestBytes limits scope)
        (alone (maxRequestBytes limits scope) app incoming 0).1
        (callUpload s limits scope app incoming) ↔
      (∃ declared ∈ contentLength s scope, maxRequestBytes limits scope < declared) ∨
        Orderly (alone (maxRequestBytes limits scope) app incoming 0) := by
  generalize hmax : maxRequestBytes limits scope = maxBytes
  cases hdeclared : (contentLength s scope).filter (maxBytes < ·) with
  | some declared =>
    obtain ⟨hlength, hlarge⟩ := Option.filter_eq_some_iff.mp hdeclared
    have hended : (callUpload s limits scope app incoming).passed = [] ∧
        (callUpload s limits scope app incoming).overrun = false ∧
        (callUpload s limits scope app incoming).connection = reject s scope ⟨incoming, []⟩ := by
      rw [callUpload, hmax, hdeclared]
      exact ⟨rfl, rfl, rfl⟩
    obtain ⟨hpassed, hoverrun, hconnection⟩ := hended
    refine ⟨fun _ => .inl ⟨declared, hlength, of_decide_eq_true hlarge⟩, fun _ => ⟨?_, ?_, ?_⟩⟩
    · rw [hpassed]
      exact Nat.zero_le _
    · rw [hconnection, reject_seen]
      exact answered_reject_iff.mpr fun _ hmem => (nomatch hmem)
    · rw [hoverrun]
      exact fun h => (nomatch h)
  | none =>
    have hundeclared : ¬ ∃ declared ∈ contentLength s scope, maxBytes < declared := by
      rintro ⟨declared, hlength, hlarge⟩
      rw [show contentLength s scope = some declared from hlength] at hdeclared
      simp at hdeclared
      omega
    obtain ⟨htoo, hseen, hbytes⟩ := @run_limited ε maxBytes app { connection := ⟨incoming, []⟩ }
      rfl (Nat.zero_le _) rfl
    rw [or_iff_right hundeclared, Orderly]
    rw [callUpload, hmax, hdeclared]
    dsimp only at htoo hseen hbytes ⊢
    rw [List.nil_append] at hseen
    cases hoverrun : (alone maxBytes app incoming 0).2 with
    | true =>
      rw [hoverrun] at htoo
      rw [if_pos htoo, if_pos rfl]
      constructor
      · intro h
        have hanswered := h.answered
        dsimp only at hanswered
        rw [reject_seen, hseen] at hanswered
        exact answered_reject_iff.mp hanswered
      · intro h
        refine ⟨hbytes, ?_, fun _ hstarts => ?_⟩
        · rw [reject_seen, hseen]
          exact answered_reject_iff.mpr h
        · rw [reject_seen, hseen]
          exact ⟨_, _, _, rfl, hstarts⟩
    | false =>
      rw [hoverrun] at htoo
      have hnot : ¬ (app.run (limited maxBytes) { connection := ⟨incoming, []⟩ }).2.tooLarge =
          true := by
        rw [htoo]
        exact Bool.false_ne_true
      rw [if_neg hnot, if_neg Bool.false_ne_true]
      constructor
      · intro h
        have hanswered := h.answered
        dsimp only at hanswered
        rwa [hseen] at hanswered
      · intro h
        refine ⟨hbytes, ?_, fun hnever => (nomatch hnever)⟩
        rw [hseen]
        exact h

/-- An application that answers before it reads, and reads one message. -/
def answersFirst : App Empty :=
  .call (.send (.responseStart 200 [])) fun _ =>
    .call .receive fun _ => .call (.send (.responseBody ⟨#[]⟩ false)) fun _ => .ret ()

/-- Three bytes where two are the limit. -/
def threeBytes : List Message := [.request ⟨#[1, 2, 3]⟩ false]

def smallLimits : Limits where
  configuredMaxPdfBytes := some 2
  maxPdfBytes := 1
  importMaxUploadBytes := 1
  multipartOverheadBytes := 0

def pdfUpload : Upload := ⟨⟨"http", some "POST", "/api/products/7/pdf", []⟩, by decide +kernel⟩

end ProductPdfQr.UploadLimit
