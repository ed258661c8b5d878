/-
  File:      BankingService/Http/Handlers.lean
  Subject:   `internal/httpapi/handlers.go`: the four POST handlers, from the request to the call
             they make, and from what the call returns to the response.

  * A handler's own checks come first and answer by themselves (`Except Response`); a request that
    passes them becomes a call of the service or of the store (`Post.handle`).
  * A JSON body arrives decoded, `none` where `json.Decoder` refuses it. What the decoder leaves to
    the program is done here: an `amount` token goes through `Money.UnmarshalJSON`, an absent one
    leaves the zero value. Strings of a JSON body are valid UTF-8; header values are any bytes
    `net/http` lets through, the empty string where the header is missing.
  * A response is its status and its body. The body of a success is the Go struct itself:
    `json.Encoder` writes it field by field, so two bodies are the same exactly when the structs
    are.
-/
import BankingService.Machine
import BankingService.Money.Text

namespace BankingService

/-! ## 1. Responses -/

/-- What `writeJSON` encodes. -/
inductive Body where
  | transaction (t : Transaction)
  | account (a : Account)
  | error (code message : String)
  deriving DecidableEq, Repr

structure Response where
  status : Nat
  body : Body
  deriving DecidableEq, Repr

/-- `writeJSON`. -/
def writeJSON (status : Nat) (v : Body) : Response := ⟨status, v⟩

/-- `writeError`. -/
def writeError (status : Nat) (code message : String) : Response :=
  writeJSON status (.error code message)

/-- `Server.internalError`: the error itself is only logged. -/
def internalError : Response := writeError 500 "internal_error" "an internal error occurred"

/-- `Server.mapError`. A wrapped error of the service is a store error, no sentinel, so `errors.Is`
    finds none in it. -/
def mapError : Err → Response
  | e@(.sentinel s) =>
    match s with
    | .accountNotFound | .transactionNotFound => writeError 404 "not_found" e.error
    | .alreadyReversed | .idempotencyConflict => writeError 409 "conflict" e.error
    | .insufficientFunds | .notReversible | .selfTransfer | .systemAccount | .invalidAmount =>
      writeError 422 "unprocessable" e.error
  | .wrapped _ _ => internalError

/-- The end of `createTransfer`, `reverseTransfer` and `createDeposit`: the returned transaction is
    written, the returned entries are dropped. -/
def respond : Return → Response
  | .existing t _ => writeJSON 201 (.transaction t)
  | .committed t _ => writeJSON 201 (.transaction t)
  | .failed e => mapError e

/-- The response of a call that has returned; every error of `CreateAccount` is an internal one. -/
def Call.response : Call → Option Response
  | .request _ (.done ret) => some (respond ret)
  | .createAccount _ (.done a) => some (writeJSON 201 (.account a))
  | .createAccount _ (.failed _) => some internalError
  | _ => none

/-! ## 2. `uuid.Parse` -/

/-- `xvalues`: the value of a hexadecimal digit. -/
def hexValue (b : UInt8) : Option Nat :=
  if 48 ≤ b && b ≤ 57 then some (b.toNat - 48)
  else if 65 ≤ b && b ≤ 70 then some (b.toNat - 55)
  else if 97 ≤ b && b ≤ 102 then some (b.toNat - 87)
  else none

/-- The number a string of hexadecimal digits denotes. -/
def hexNumber (s : GoString) : Option Nat :=
  s.foldl (fun acc b => acc.bind fun n => (hexValue b).map fun d => 16 * n + d) (some 0)

/-- The form `xxxxxxxx-xxxx-xxxx-xxxx-xxxxxxxxxxxx`; what follows its 36 bytes is not examined. -/
def parseDashed (s : GoString) : Option UUID :=
  if s[8]? = some 45 ∧ s[13]? = some 45 ∧ s[18]? = some 45 ∧ s[23]? = some 45 then
    (hexNumber (s.take 8 ++ (s.drop 9).take 4 ++ (s.drop 14).take 4 ++ (s.drop 19).take 4 ++
      (s.drop 24).take 12)).map (BitVec.ofNat 128)
  else none

/-- An ASCII letter in lower case. -/
def lowerByte (b : UInt8) : UInt8 := if 65 ≤ b && b ≤ 90 then b + 32 else b

/-- `uuid.Parse`: by the length of the string, the dashed form alone, after `urn:uuid:`, between two
    bytes, or the digits alone. -/
def UUID.parse (s : GoString) : Option UUID :=
  if s.length = 36 then parseDashed s
  else if s.length = 45 then
    if (s.take 9).map lowerByte = bytes "urn:uuid:" then parseDashed (s.drop 9) else none
  else if s.length = 38 then parseDashed (s.drop 1)
  else if s.length = 32 then (hexNumber s).map (BitVec.ofNat 128)
  else none

example : UUID.parse (bytes "00000000-0000-0000-0000-00000000000A") = some 10#128 := by
  decide +kernel

/-! ## 3. Requests -/

/-- A header value `net/http` accepts: no control byte but the tab. -/
def headerValue (s : GoString) : Bool := s.all fun b => b == 9 || (32 ≤ b && b != 127)

/-- The headers the handlers read. -/
structure Headers where
  idempotencyKey : GoString
  requestID : GoString
  accepted : headerValue idempotencyKey = true ∧ headerValue requestID = true

/-- The decoded body of `createAccount`. -/
structure AccountBody where
  name : GoString
  utf8 : utf8Valid name = true

/-- The body of `createTransfer`; `amount` is the raw JSON token. -/
structure TransferBody where
  srcID : GoString
  dstID : GoString
  amount : Option GoString

/-- The body of `createDeposit`. -/
structure DepositBody where
  dstID : GoString
  amount : Option GoString

def badRequest (message : String) : Response := writeError 400 "bad_request" message

/-- The check of the `Idempotency-Key` header. -/
def requireKey (h : Headers) : Except Response GoString :=
  if h.idempotencyKey = [] then
    .error (writeError 400 "missing_idempotency_key" "Idempotency-Key header is required")
  else .ok h.idempotencyKey

/-- `resolveRequestID`; `gen` is the UUID it generates. -/
def resolveRequestID (h : Headers) (gen : UUID) : GoString :=
  if h.requestID ≠ [] then h.requestID else gen.text

/-- `json.Decoder.Decode` of a whole body. -/
def decodeBody {β : Type} (body : Option β) : Except Response β :=
  match body with
  | none => .error (badRequest "invalid JSON body")
  | some b => .ok b

/-- The `amount` field of a body, which fails the whole `Decode`. -/
def decodeAmount (token : Option GoString) : Except Response Money :=
  match token with
  | none => .ok Money.zeroValue
  | some t =>
    match Money.unmarshalJSON t with
    | .error _ => .error (badRequest "invalid JSON body")
    | .ok m => .ok m

/-- `parseUUID`. -/
def parseUUID (s : GoString) : Except Response UUID :=
  match UUID.parse s with
  | none => .error (badRequest "invalid UUID in path")
  | some id => .ok id

/-- `parseUUIDField`. -/
def parseUUIDField (s : GoString) (field : String) : Except Response UUID :=
  if s = [] then .error (badRequest (field ++ " is required"))
  else
    match UUID.parse s with
    | none => .error (badRequest (field ++ " is not a valid UUID"))
    | some id => .ok id

/-- `createAccount` up to its call of the store. -/
def createAccount (body : Option AccountBody) : Except Response GoString := do
  let body ← decodeBody body
  if body.name = [] then .error (writeError 400 "validation_error" "name is required")
  else .ok body.name

/-- `createTransfer` up to its call of the service. -/
def createTransfer (h : Headers) (gen : UUID) (body : Option TransferBody) :
    Except Response Request := do
  let idemKey ← requireKey h
  let body ← decodeBody body
  let amount ← decodeAmount body.amount
  let srcID ← parseUUIDField body.srcID "src_account_id"
  let dstID ← parseUUIDField body.dstID "dst_account_id"
  .ok (.transfer srcID dstID amount idemKey (resolveRequestID h gen))

/-- `reverseTransfer` up to its call of the service; `id` is the path segment. -/
def reverseTransfer (h : Headers) (gen : UUID) (id : GoString) : Except Response Request := do
  let idemKey ← requireKey h
  let originalID ← parseUUID id
  .ok (.reverse originalID idemKey (resolveRequestID h gen))

/-- `createDeposit` up to its call of the service. -/
def createDeposit (h : Headers) (gen : UUID) (body : Option DepositBody) :
    Except Response Request := do
  let idemKey ← requireKey h
  let body ← decodeBody body
  let amount ← decodeAmount body.amount
  let dstID ← parseUUIDField body.dstID "dst_account_id"
  .ok (.deposit dstID amount idemKey (resolveRequestID h gen))

/-- A POST to one of the four routes. -/
inductive Post where
  | accounts (body : Option AccountBody)
  | transfers (h : Headers) (body : Option TransferBody)
  | reverse (h : Headers) (id : GoString)
  | deposits (h : Headers) (body : Option DepositBody)

/-- The handler's answer to a POST: its own response, or the call that arrives at the service. -/
def Post.handle (gen : UUID) : Post → Except Response Act
  | .accounts body => (createAccount body).map .arriveCreate
  | .transfers h body => (createTransfer h gen body).map .arrive
  | .reverse h id => (reverseTransfer h gen id).map .arrive
  | .deposits h body => (createDeposit h gen body).map .arrive

/-! ## 4. What reaches the service -/

theorem map_eq_ok {ε α β : Type} {f : α → β} {x : Except ε α} {b : β} (h : x.map f = .ok b) :
    ∃ a, x = .ok a ∧ f a = b := by
  cases x with
  | error => cases h
  | ok a => exact ⟨a, rfl, Except.ok.inj h⟩

/-- The headers of a POST. -/
def Post.headers? : Post → Option Headers
  | .accounts _ => none
  | .transfers h _ => some h
  | .reverse h _ => some h
  | .deposits h _ => some h

section Reach

variable {h : Headers} {gen : UUID} {r : Request}

/-- A request's key and id are those of its headers. -/
def Request.From (r : Request) (h : Headers) (gen : UUID) : Prop :=
  r.key = h.idempotencyKey ∧ r.requestID = resolveRequestID h gen

theorem requireKey_ok {key : GoString} (hk : requireKey h = .ok key) : key = h.idempotencyKey := by
  unfold requireKey at hk
  split at hk
  · cases hk
  · exact (Except.ok.inj hk).symm

theorem createTransfer_from {body : Option TransferBody}
    (hr : createTransfer h gen body = .ok r) : r.From h gen := by
  obtain ⟨key, hk, hr⟩ := bind_eq_ok hr
  obtain ⟨b, _, hr⟩ := bind_eq_ok hr
  obtain ⟨amount, _, hr⟩ := bind_eq_ok hr
  obtain ⟨srcID, _, hr⟩ := bind_eq_ok hr
  obtain ⟨dstID, _, hr⟩ := bind_eq_ok hr
  cases hr
  exact ⟨requireKey_ok hk, rfl⟩

theorem reverseTransfer_from {id : GoString} (hr : reverseTransfer h gen id = .ok r) :
    r.From h gen := by
  obtain ⟨key, hk, hr⟩ := bind_eq_ok hr
  obtain ⟨originalID, _, hr⟩ := bind_eq_ok hr
  cases hr
  exact ⟨requireKey_ok hk, rfl⟩

theorem createDeposit_from {body : Option DepositBody} (hr : createDeposit h gen body = .ok r) :
    r.From h gen := by
  obtain ⟨key, hk, hr⟩ := bind_eq_ok hr
  obtain ⟨b, _, hr⟩ := bind_eq_ok hr
  obtain ⟨amount, _, hr⟩ := bind_eq_ok hr
  obtain ⟨dstID, _, hr⟩ := bind_eq_ok hr
  cases hr
  exact ⟨requireKey_ok hk, rfl⟩

/-- **Every request that reaches the service** has its key and its id from the headers. -/
theorem Post.handle_from {post : Post} (hp : post.handle gen = .ok (.arrive r)) :
    ∃ h, post.headers? = some h ∧ r.From h gen := by
  cases post with
  | accounts body =>
      obtain ⟨_, _, e⟩ := map_eq_ok hp
      cases e
  | transfers h body =>
      obtain ⟨_, hr, e⟩ := map_eq_ok hp
      cases e
      exact ⟨h, rfl, createTransfer_from hr⟩
  | reverse h id =>
      obtain ⟨_, hr, e⟩ := map_eq_ok hp
      cases e
      exact ⟨h, rfl, reverseTransfer_from hr⟩
  | deposits h body =>
      obtain ⟨_, hr, e⟩ := map_eq_ok hp
      cases e
      exact ⟨h, rfl, createDeposit_from hr⟩

/-- A header value has no NUL byte, so it can be stored if it is UTF-8. -/
theorem pgText_header {s : GoString} (hs : headerValue s = true) : pgText s = utf8Valid s := by
  have h0 : s.contains 0 = false := by
    rw [List.contains_eq_mem]
    exact decide_eq_false fun h => absurd (List.all_eq_true.mp hs 0 h) (by decide)
  rw [pgText, h0, Bool.not_false, Bool.and_true]

/-- The request id can be stored if the header is UTF-8; an absent one is generated. -/
theorem Request.From.pgText_requestID (hf : r.From h gen) :
    pgText r.requestID = utf8Valid h.requestID := by
  rw [hf.2, resolveRequestID]
  split
  · exact pgText_header h.accepted.2
  · rename_i he
    rw [pgText_uuid, Decidable.not_not.mp he]
    rfl

end Reach

/-! ## 5. A POST and its run -/

/-- A POST that has Alice send Bob an amount. -/
def sendPost (h : Headers) (amount : String) : Post :=
  .transfers h (some ⟨aliceID.text, bobID.text, some (bytes amount)⟩)

def sampleHeaders : Headers :=
  ⟨bytes "pay-1", bytes "req-1", by decide +kernel, by decide +kernel⟩

/-- Alice sends Bob 2500. -/
def smallTransfer : Request :=
  .transfer aliceID bobID (Money.fromInt 2500) (bytes "pay-1") (bytes "req-1")

theorem sendPost_sample :
    (sendPost sampleHeaders "2500").handle 0#128 = .ok (.arrive smallTransfer) := by
  decide +kernel

/-- The steps of the call: the lookup, the new id, the transaction and the audit row. -/
def sendRun : List Act :=
  [.call 0 .ok, .call 0 (.uuid 100#128)] ++ List.replicate 17 (.call 0 .ok)

theorem sendRun_isSome :
    (exec Config.migrated (St.start (Db.migrated 0) 1000)
      (.arrive smallTransfer :: sendRun)).isSome = true := by
  decide +kernel

/-- The state it ends in. -/
def sendEnd : St :=
  (exec Config.migrated (St.start (Db.migrated 0) 1000) (.arrive smallTransfer :: sendRun)).get
    sendRun_isSome

theorem sendRun_exec :
    exec Config.migrated (St.start (Db.migrated 0) 1000) (.arrive smallTransfer :: sendRun) =
      some sendEnd :=
  (Option.some_get sendRun_isSome).symm

/-- What the call returns. -/
def sendReturn : Return :=
  .committed ⟨100#128, .transfer, bytes "pay-1", none, 0, []⟩
    [⟨0, 100#128, aliceID, .debit, [], Money.fromInt 2500, 0⟩,
      ⟨0, 100#128, bobID, .credit, [], Money.fromInt 2500, 0⟩]

theorem sendEnd_call : sendEnd.calls[0]? = some (.request smallTransfer (.done sendReturn)) := by
  decide +kernel

end BankingService
