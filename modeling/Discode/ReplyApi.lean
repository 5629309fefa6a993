import Discode.Database
import Discode.MessageBuilder

/-!
# `POST /v1/sessions/{sid}/reply`

A request posts the chunks of a reply one after another.  Every chunk has a row in
`idempotency_keys` that is claimed by a lease before the send and keeps the message id
afterwards.  What the request looks up outside its own rows comes with its steps.
-/

set_option autoImplicit false

namespace Discode

abbrev MessageId := ℕ

/-- The `uuid4` of one call of `_send_checkpointed`: the request and its chunk. -/
abbrev ClaimOwner := ℕ × ℕ

/-- A row of type `discord.reply_chunk.v1`; without an outcome it is `pending`. -/
structure ReplyRow where
  outcome : Option MessageId
  claimOwner : Option ClaimOwner
  claimExpiresAt : Option Time
  deriving DecidableEq, Repr

structure PostedChunk where
  session : SessionId
  nonce : PyStr
  content : PyStr
  messageId : MessageId
  deriving DecidableEq, Repr

structure ReplyStore where
  now : Time
  /-- The key is `{sid}:{nonce}`. -/
  rows : KeyedTable (SessionId × PyStr) ReplyRow
  /-- The messages on Discord, oldest first. -/
  posted : List PostedChunk

def ReplyStore.empty : ReplyStore := ⟨0, .empty, []⟩

def claimLeaseMs : ℕ := 600000

/-- What `session_lookup` returns of a session row. -/
structure SessionInfo where
  status : Status
  lifecycleVersion : ℕ
  deriving DecidableEq, Repr

structure ReplyBody where
  text : PyStr
  idempotencyKey : PyStr
  lifecycleVersion : Option ℕ
  deriving DecidableEq, Repr

def ReplyBody.valid (body : ReplyBody) : Bool :=
  body.text.length ≤ 1000000 ∧ 1 ≤ body.idempotencyKey.length ∧ body.idempotencyKey.length ≤ 200

/-- The nonce of chunk `idx`. -/
def chunkNonce (key : PyStr) (idx : ℕ) : PyStr :=
  if idx = 0 then key else key ++ pyStr ":" ++ (Nat.toDigits 10 idx).map Char.toNat

/-- `build_message(redacted_text) or [""]`. -/
def replyChunks (env : Redactor) (text : PyStr) : List PyStr :=
  let chunks := buildMessage env.words (applyCommonRedaction env text)
  if chunks = [] then [[]] else chunks

inductive SendResult where
  | delivered (messageId : MessageId)
  | quotaExceeded
  /-- `DiscordPermanentError`. -/
  | rejected
  | failed
  deriving DecidableEq, Repr

inductive ReplyStage where
  | lookup
  | chunk
  | claim
  | check
  | send
  | sent (messageId : MessageId)
  /-- The `finally` clause, with the message id or the status of the error. -/
  | release (result : Except ℕ MessageId)
  | done
  | refused (status : ℕ)
  deriving DecidableEq, Repr

structure ReplyRequest where
  session : SessionId
  body : ReplyBody
  chunks : List PyStr
  /-- The version of the first lookup. -/
  version : ℕ
  messageIds : List MessageId
  stage : ReplyStage
  deriving DecidableEq, Repr

inductive ReplyAction where
  | lookup (outboundAllowed : Bool)
  | readOutcome
  | claim
  | check (outboundAllowed : Bool)
  | send (result : SendResult)
  | checkpoint
  | checkpointFails
  | release
  deriving DecidableEq, Repr

def SessionInfo.liveAt (info : Option SessionInfo) (version : ℕ) : Bool :=
  info.any fun i ↦ i.status.isLive ∧ i.lifecycleVersion = version

namespace ReplyRequest

def begin (env : Redactor) (session : SessionId) (body : ReplyBody) : ReplyRequest where
  session := session
  body := body
  chunks := replyChunks env body.text
  version := 0
  messageIds := []
  stage := .lookup

variable (p : ReplyRequest)

def goTo (stage : ReplyStage) : ReplyRequest := { p with stage := stage }

abbrev idx : ℕ := p.messageIds.length

abbrev nonce : PyStr := chunkNonce p.body.idempotencyKey p.idx

abbrev rowKey : SessionId × PyStr := (p.session, p.nonce)

/-- Chunk `idx` is on Discord: go on with the next one. -/
def advance (messageId : MessageId) : ReplyRequest :=
  { p with
    messageIds := p.messageIds ++ [messageId]
    stage := if p.idx + 1 < p.chunks.length then .chunk else .done }

/-- The checks before the first chunk. -/
def lookup (info : Option SessionInfo) (outboundAllowed : Bool) : ReplyRequest :=
  match info with
  | none => p.goTo (.refused 404)
  | some i =>
      if !i.status.isLive then p.goTo (.refused 404)
      else if p.body.lifecycleVersion.any (· ≠ i.lifecycleVersion) then p.goTo (.refused 409)
      else if !outboundAllowed then p.goTo (.refused 503)
      else { p with version := i.lifecycleVersion, stage := .chunk }

/-- `INSERT … ON CONFLICT DO NOTHING`. -/
def pendingRow (s : ReplyStore) : ReplyStore :=
  match s.rows.insert? p.rowKey ⟨none, none, none⟩ with
  | none => s
  | some rows => { s with rows := rows }

def claimRow (owner : ClaimOwner) (s : ReplyStore) : Option ReplyStore :=
  match s.rows.get? p.rowKey with
  | none => none
  | some row =>
      if row.outcome = none ∧ row.claimExpiresAt.all (· ≤ s.now) then
        some { s with rows := s.rows.modify p.rowKey fun row ↦
          { row with claimOwner := some owner, claimExpiresAt := some (s.now + claimLeaseMs) } }
      else none

/-- An `UPDATE` of the chunk's row `WHERE claim_owner=:owner`. -/
def updateOwned (owner : ClaimOwner) (f : ReplyRow → ReplyRow) (s : ReplyStore) : ReplyStore :=
  { s with rows := s.rows.modify p.rowKey fun row ↦
      if row.claimOwner = some owner then f row else row }

def sendChunk (s : ReplyStore) : SendResult → ReplyStore × ReplyRequest
  | .delivered messageId =>
      ({ s with posted := s.posted ++
          [⟨p.session, p.nonce, p.chunks.getD p.idx [], messageId⟩] }, p.goTo (.sent messageId))
  | .quotaExceeded => (s, p.goTo (.release (.error 429)))
  | .rejected => (s, p.goTo (.release (.error 410)))
  | .failed => (s, p.goTo (.release (.error 500)))

/-- One step of request `pid`; `info` is what `session_lookup` returns in this step. -/
def step (pid : ℕ) (info : Option SessionInfo) (s : ReplyStore) :
    ReplyAction → Option (ReplyStore × ReplyRequest)
  | .lookup allowed =>
      match p.stage with
      | .lookup => some (s, p.lookup info allowed)
      | _ => none
  | .readOutcome =>
      match p.stage with
      | .chunk =>
          let s := p.pendingRow s
          match (s.rows.get? p.rowKey).bind ReplyRow.outcome with
          | some messageId => some (s, p.advance messageId)
          | none => some (s, p.goTo .claim)
      | _ => none
  | .claim =>
      match p.stage with
      | .claim =>
          match p.claimRow (pid, p.idx) s with
          | none => some (s, p.goTo (.refused 409))
          | some s => some (s, p.goTo .check)
      | _ => none
  | .check allowed =>
      match p.stage with
      | .check =>
          some (s, p.goTo (if !SessionInfo.liveAt info p.version then .release (.error 409)
            else if allowed then .send else .release (.error 500)))
      | _ => none
  | .send result =>
      match p.stage with
      | .send => some (p.sendChunk s result)
      | _ => none
  | .checkpoint =>
      match p.stage with
      | .sent messageId => some (p.updateOwned (pid, p.idx) (fun row ↦
          { row with outcome := some messageId, claimExpiresAt := none }) s,
          p.goTo (.release (.ok messageId)))
      | _ => none
  | .checkpointFails =>
      match p.stage with
      | .sent _ => some (s, p.goTo (.release (.error 500)))
      | _ => none
  | .release =>
      match p.stage with
      | .release result =>
          some (p.updateOwned (pid, p.idx) (fun row ↦ { row with claimExpiresAt := none }) s,
            match result with
            | .ok messageId => p.advance messageId
            | .error status => p.goTo (.refused status))
      | _ => none

end ReplyRequest

end Discode
