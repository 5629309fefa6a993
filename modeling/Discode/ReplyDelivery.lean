import Discode.Library.ProcessPool
import Discode.ReplyApi

/-!
# Delivery of a reply by repeated requests

Requests that carry the same reply run side by side on the control API.  The lease of a chunk
lets one of them send it, and the checkpoint hands its message id to all others.
-/

set_option autoImplicit false

namespace Discode.ReplyDelivery

open ProcessPool (Machine)

/-- What all the requests have in common. -/
structure Reply where
  session : SessionId
  text : PyStr
  idempotencyKey : PyStr
  deriving DecidableEq, Repr

inductive RequestAction where
  | step (info : Option SessionInfo) (a : ReplyAction)
  /-- The process dies, or a transaction of the request fails. -/
  | crash
  deriving DecidableEq, Repr

/-- The environment is the clock; the lifecycle version of a request is its own. -/
def api (env : Redactor) (reply : Reply) :
    Machine ReplyStore ReplyRequest ℕ (Option ℕ) RequestAction where
  env s ms := some { s with now := s.now + ms }
  spawn _ s version :=
    let body : ReplyBody := ⟨reply.text, reply.idempotencyKey, version⟩
    if body.valid then some (s, .begin env reply.session body) else none
  exec pid s p a :=
    match a with
    | .step info a => (p.step pid info s a).map fun (s, q) ↦ (s, some q)
    | .crash => some (s, none)

abbrev ApiState := ProcessPool.State ReplyStore ReplyRequest

abbrev ApiAction := ProcessPool.Action ℕ (Option ℕ) RequestAction

/-- The row of chunk `i`. -/
def row? (reply : Reply) (s : ReplyStore) (i : ℕ) : Option ReplyRow :=
  s.rows.get? (reply.session, chunkNonce reply.idempotencyKey i)

def outcome? (reply : Reply) (s : ReplyStore) (i : ℕ) : Option MessageId :=
  (row? reply s i).bind ReplyRow.outcome

/-- Nothing of the reply was posted yet. -/
def Unposted (reply : Reply) (s : ReplyStore) : Prop :=
  s.posted = [] ∧ ∀ i, row? reply s i = none

/-- From the claim of a chunk to its checkpoint. -/
def isSending : ReplyStage → Bool
  | .check | .send | .sent _ => true
  | _ => false

/-- No lease expires during a send, and nothing fails between a send and its checkpoint. -/
def Undisturbed (reply : Reply) (σ : ApiState) : ApiAction → Prop
  | .env ms => ∀ pid p, σ.procs pid = some p → isSending p.stage = true →
      ∀ row e, row? reply σ.shared p.idx = some row → row.claimExpiresAt = some e →
        σ.shared.now + ms < e
  | .exec pid .crash => ∀ p m, σ.procs pid = some p → p.stage ≠ .sent m
  | .exec _ (.step _ .checkpointFails) => False
  | _ => True

abbrev Delivered (env : Redactor) (reply : Reply) : ApiState → Prop :=
  (api env reply).ReachableWhen (Undisturbed reply) (Unposted reply)

/-! ## The rows of a reply -/

theorem chunkNonce_injective (key : PyStr) : Function.Injective (chunkNonce key) := by
  intro i j h
  unfold chunkNonce at h
  split at h
  · rename_i hi
    split at h
    · rename_i hj
      exact hi.trans hj.symm
    · have hlen := congrArg List.length h
      simp [pyStr] at hlen
  · split at h
    · have hlen := congrArg List.length h
      simp [pyStr] at hlen
    · have hdigits := List.append_cancel_left h
      have hchars : Nat.toDigits 10 i = Nat.toDigits 10 j := by
        refine List.map_injective_iff.mpr (fun a b hab ↦ ?_) hdigits
        exact Char.toNat_inj.mp hab
      rw [← Nat.ofDigitChars_ten_toDigits (n := i), hchars, Nat.ofDigitChars_ten_toDigits]

variable {reply : Reply} {s : ReplyStore} {p : ReplyRequest}

theorem rowKey_inj {i j : ℕ} :
    (reply.session, chunkNonce reply.idempotencyKey i) =
      (reply.session, chunkNonce reply.idempotencyKey j) ↔ i = j := by
  rw [Prod.mk.injEq, and_iff_right rfl]
  exact (chunkNonce_injective _).eq_iff

/-- The request is one for the reply. -/
structure IsFor (reply : Reply) (p : ReplyRequest) : Prop where
  session : p.session = reply.session
  key : p.body.idempotencyKey = reply.idempotencyKey

theorem IsFor.rowKey (h : IsFor reply p) :
    p.rowKey = (reply.session, chunkNonce reply.idempotencyKey p.idx) := by
  rw [ReplyRequest.rowKey, ReplyRequest.nonce, h.session, h.key]

theorem row?_pendingRow (h : IsFor reply p) (i : ℕ) : row? reply (p.pendingRow s) i =
    if i = p.idx then some ((row? reply s i).getD ⟨none, none, none⟩) else row? reply s i := by
  unfold ReplyRequest.pendingRow
  rw [h.rowKey]
  split
  · rename_i hinsert
    -- The row exists.
    have hsome : ∃ row, row? reply s p.idx = some row := by
      by_contra hnone
      have hnot := KeyedTable.get?_eq_none_iff.mp
        (Option.eq_none_iff_forall_ne_some.mpr fun row hrow ↦ hnone ⟨row, hrow⟩)
      rw [KeyedTable.insert?, dif_neg hnot] at hinsert
      cases hinsert
    split
    · rename_i hi
      subst hi
      obtain ⟨row, hrow⟩ := hsome
      rw [hrow]
      rfl
    · rfl
  · rename_i rows hinsert
    have hget := KeyedTable.get?_insert? hinsert
    have hnone := (KeyedTable.insert?_eq_some hinsert).1
    refine (hget _).trans ?_
    simp only [rowKey_inj]
    split
    · rename_i hi
      subst hi
      rw [row?, hnone]
      rfl
    · rfl

theorem row?_claimRow (h : IsFor reply p) {owner : ClaimOwner} {s' : ReplyStore}
    (hs : p.claimRow owner s = some s') : ∃ row, row? reply s p.idx = some row ∧
      row.outcome = none ∧ row.claimExpiresAt.all (· ≤ s.now) = true ∧ s'.posted = s.posted ∧
      s'.now = s.now ∧ ∀ i, row? reply s' i = if i = p.idx then
        some { row with claimOwner := some owner, claimExpiresAt := some (s.now + claimLeaseMs) }
        else row? reply s i := by
  unfold ReplyRequest.claimRow at hs
  rw [h.rowKey] at hs
  split at hs
  · cases hs
  · rename_i row hrow
    split at hs
    · rename_i hfree
      cases hs
      refine ⟨row, hrow, hfree.1, hfree.2, rfl, rfl, fun i ↦ ?_⟩
      refine (KeyedTable.get?_modify _ _ _ _).trans ?_
      simp only [rowKey_inj]
      split
      · rename_i hi
        subst hi
        rw [hrow]
        rfl
      · rfl
    · cases hs

theorem row?_updateOwned (h : IsFor reply p) (owner : ClaimOwner) (f : ReplyRow → ReplyRow)
    (i : ℕ) : row? reply (p.updateOwned owner f s) i = if i = p.idx then
      (row? reply s i).map fun row ↦ if row.claimOwner = some owner then f row else row
      else row? reply s i := by
  unfold ReplyRequest.updateOwned
  rw [h.rowKey]
  refine (KeyedTable.get?_modify _ _ _ _).trans ?_
  simp only [rowKey_inj]
  split
  · rename_i hi
    subst hi
    rfl
  · rfl

/-! ## The invariant -/

variable {cs : List PyStr}

structure Inv (reply : Reply) (cs : List PyStr) (s : ReplyStore) : Prop where
  chunk : ∀ i c, s.posted[i]? = some c → c.session = reply.session ∧
    c.nonce = chunkNonce reply.idempotencyKey i ∧ cs[i]? = some c.content
  outcome : ∀ i m, outcome? reply s i = some m → ∃ c, s.posted[i]? = some c ∧ c.messageId = m

/-- The request still has chunks to deliver. -/
def isWorking : ReplyStage → Bool
  | .lookup | .done | .refused _ => false
  | _ => true

structure RequestOk (reply : Reply) (cs : List PyStr) (pid : ℕ) (p : ReplyRequest)
    (s : ReplyStore) : Prop where
  isFor : IsFor reply p
  chunks : p.chunks = cs
  fresh : p.stage = .lookup → p.messageIds = []
  working : isWorking p.stage = true → p.idx < cs.length
  done : p.stage = .done → p.idx = cs.length
  fetched : ∀ i m, p.messageIds[i]? = some m → outcome? reply s i = some m
  leased : isSending p.stage = true → ∃ e,
    row? reply s p.idx = some ⟨none, some (pid, p.idx), some e⟩ ∧ s.now < e
  sent : ∀ m, p.stage = .sent m → p.idx + 1 = s.posted.length ∧
    ∃ c, s.posted[p.idx]? = some c ∧ c.messageId = m
  released : ∀ m, p.stage = .release (.ok m) → outcome? reply s p.idx = some m

/-- Only the newest chunk may lack its checkpoint, and whoever sent it is about to set it. -/
def Checkpointed (reply : Reply) (σ : ApiState) : Prop :=
  ∀ i c, σ.shared.posted[i]? = some c → outcome? reply σ.shared i = some c.messageId ∨
    i + 1 = σ.shared.posted.length ∧ ∃ pid p, σ.procs pid = some p ∧
      p.stage = .sent c.messageId ∧ p.idx = i

/-- A step that leaves the lease of request `pid` and all outcomes alone. -/
structure Frame (reply : Reply) (pid : ℕ) (s s' : ReplyStore) : Prop where
  outcome : ∀ i m, outcome? reply s i = some m → outcome? reply s' i = some m
  lease : ∀ i e, row? reply s i = some ⟨none, some (pid, i), some e⟩ → s.now < e →
    row? reply s' i = row? reply s i
  now : s'.now = s.now
  posted : s'.posted = s.posted

theorem RequestOk.frame {pid : ℕ} {s' : ReplyStore} (h : RequestOk reply cs pid p s)
    (hf : Frame reply pid s s') : RequestOk reply cs pid p s' := by
  refine ⟨h.isFor, h.chunks, h.fresh, h.working, h.done, ?_, ?_, ?_, ?_⟩
  · exact fun i m hm ↦ hf.outcome i m (h.fetched i m hm)
  · intro hsending
    obtain ⟨e, hrow, hlt⟩ := h.leased hsending
    exact ⟨e, (hf.lease _ e hrow hlt).trans hrow, hf.now ▸ hlt⟩
  · intro m hstage
    rw [hf.posted]
    exact h.sent m hstage
  · exact fun m hstage ↦ hf.outcome _ m (h.released m hstage)

theorem Inv.of_posted {s' : ReplyStore} (h : Inv reply cs s) (hposted : s'.posted = s.posted)
    (houtcome : ∀ i m, outcome? reply s' i = some m → outcome? reply s i = some m ∨
      ∃ c, s.posted[i]? = some c ∧ c.messageId = m) : Inv reply cs s' := by
  constructor
  · rw [hposted]
    exact h.chunk
  · intro i m hm
    rw [hposted]
    rcases houtcome i m hm with hold | hnew
    · exact h.outcome i m hold
    · exact hnew

/-! ## The steps on the rows -/

theorem outcome?_pendingRow (h : IsFor reply p) (i : ℕ) :
    outcome? reply (p.pendingRow s) i = outcome? reply s i := by
  rw [outcome?, row?_pendingRow h, outcome?]
  split
  · cases row? reply s i <;> rfl
  · rfl

theorem pendingRow_frame (h : IsFor reply p) (pid : ℕ) :
    Frame reply pid s (p.pendingRow s) := by
  refine ⟨fun i m hm ↦ (outcome?_pendingRow h i).trans hm, fun i e hrow _ ↦ ?_, ?_, ?_⟩
  · rw [row?_pendingRow h, hrow]
    split <;> rfl
  · unfold ReplyRequest.pendingRow
    split <;> rfl
  · unfold ReplyRequest.pendingRow
    split <;> rfl

theorem claimRow_frame (h : IsFor reply p) {owner : ClaimOwner} {s' : ReplyStore}
    (hs : p.claimRow owner s = some s') (pid : ℕ) : Frame reply pid s s' := by
  obtain ⟨row, hrow, hnone, hfree, hposted, hnow, hrows⟩ := row?_claimRow h hs
  refine ⟨fun i m hm ↦ ?_, fun i e hlease hlt ↦ ?_, hnow, hposted⟩
  · rw [outcome?, hrows]
    split
    · rename_i hi
      subst hi
      rw [outcome?, hrow] at hm
      exact hm
    · exact hm
  · rw [hrows]
    split
    · -- A lease that is not over keeps others from the claim.
      rename_i hi
      subst hi
      cases hrow.symm.trans hlease
      exact absurd hlt (Nat.not_lt.mpr (of_decide_eq_true hfree))
    · rfl

theorem updateOwned_frame (h : IsFor reply p) {owner : ClaimOwner} {f : ReplyRow → ReplyRow}
    {pid : ℕ} (hne : owner.1 ≠ pid) (hf : ∀ row, row? reply s p.idx = some row →
      row.claimOwner = some owner → ∀ m, row.outcome = some m → (f row).outcome = some m) :
    Frame reply pid s (p.updateOwned owner f s) := by
  refine ⟨fun i m hm ↦ ?_, fun i e hlease _ ↦ ?_, rfl, rfl⟩
  · rw [outcome?, row?_updateOwned h]
    split
    · rename_i hi
      subst hi
      obtain ⟨row, hrow, hout⟩ := Option.bind_eq_some_iff.mp hm
      rw [hrow, Option.map_some, Option.bind_some]
      split
      · rename_i howner
        exact hf row hrow howner m hout
      · exact hout
    · exact hm
  · rw [row?_updateOwned h, hlease]
    split
    · rw [Option.map_some, if_neg]
      intro howner
      have heq : owner = (pid, i) := (Option.some.inj howner).symm
      exact hne (congrArg Prod.fst heq)
    · rfl

/-! ## The steps of a request -/

/-- A stage that promises nothing about the message ids of the reply. -/
def isPlain : ReplyStage → Bool
  | .lookup | .sent _ | .release (.ok _) | .done => false
  | _ => true

/-- The request moves on without touching its chunks. -/
theorem RequestOk.goTo {pid : ℕ} {stage : ReplyStage} (h : RequestOk reply cs pid p s)
    (hplain : isPlain stage = true)
    (hworking : isWorking stage = true → isWorking p.stage = true)
    (hsending : isSending stage = true → ∃ e,
      row? reply s p.idx = some ⟨none, some (pid, p.idx), some e⟩ ∧ s.now < e) :
    RequestOk reply cs pid (p.goTo stage) s where
  isFor := ⟨h.isFor.session, h.isFor.key⟩
  chunks := h.chunks
  fresh hs := by
    cases (show stage = .lookup from hs)
    cases hplain
  working hs := h.working (hworking hs)
  done hs := by
    cases (show stage = .done from hs)
    cases hplain
  fetched := h.fetched
  leased := hsending
  sent m hs := by
    cases (show stage = .sent m from hs)
    cases hplain
  released m hs := by
    cases (show stage = .release (.ok m) from hs)
    cases hplain

/-- The request ends with an error. -/
theorem RequestOk.refuse {pid : ℕ} (h : RequestOk reply cs pid p s) (status : ℕ) :
    RequestOk reply cs pid (p.goTo (.refused status)) s :=
  h.goTo rfl (fun hs ↦ absurd hs Bool.false_ne_true) fun hs ↦ absurd hs Bool.false_ne_true

/-- The request leaves a chunk with an error. -/
theorem RequestOk.leave {pid : ℕ} (h : RequestOk reply cs pid p s)
    (hworking : isWorking p.stage = true) (status : ℕ) :
    RequestOk reply cs pid (p.goTo (.release (.error status))) s :=
  h.goTo rfl (fun _ ↦ hworking) fun hs ↦ absurd hs Bool.false_ne_true

/-- The message id of the current chunk is known. -/
theorem RequestOk.advance {pid : ℕ} {m : MessageId} (h : RequestOk reply cs pid p s)
    (hworking : isWorking p.stage = true) (hm : outcome? reply s p.idx = some m) :
    RequestOk reply cs pid (p.advance m) s := by
  have hlt := h.working hworking
  have hidx : (p.advance m).idx = p.idx + 1 := List.length_append
  have hchunks := h.chunks
  constructor
  · exact ⟨h.isFor.session, h.isFor.key⟩
  · exact h.chunks
  · intro hs
    simp only [ReplyRequest.advance] at hs
    split at hs <;> cases hs
  · intro hs
    rw [hidx]
    simp only [ReplyRequest.advance] at hs
    split at hs
    · rename_i hmore
      rwa [hchunks] at hmore
    · cases hs
  · intro hs
    rw [hidx]
    simp only [ReplyRequest.advance] at hs
    split at hs
    · cases hs
    · rename_i hlast
      rw [hchunks] at hlast
      omega
  · intro i m' hm'
    rcases Nat.lt_or_ge i p.idx with hi | hi
    · have hold : p.messageIds[i]? = some m' := by
        rw [← hm']
        exact (List.getElem?_append_left hi).symm
      exact h.fetched i m' hold
    · have hnew : [m][i - p.idx]? = some m' := by
        rw [← hm']
        exact (List.getElem?_append_right hi).symm
      obtain ⟨hzero, hget⟩ := List.getElem?_eq_some_iff.mp hnew
      have hi' : i = p.idx := by
        have hzero' : i - p.idx < 1 := hzero
        omega
      subst hi'
      simp only [Nat.sub_self] at hget
      exact hget ▸ hm
  · intro hs
    simp only [ReplyRequest.advance] at hs
    split at hs <;> cases hs
  · intro m' hs
    simp only [ReplyRequest.advance] at hs
    split at hs <;> cases hs
  · intro m' hs
    simp only [ReplyRequest.advance] at hs
    split at hs <;> cases hs

/-- A request that is about to send finds all earlier chunks posted, and no other one. -/
theorem idx_eq_length {σ : ApiState} {pid : ℕ} (hinv : Inv reply cs σ.shared)
    (hopen : Checkpointed reply σ)
    (hassert : ∀ pid p, σ.procs pid = some p → RequestOk reply cs pid p σ.shared)
    (hp : σ.procs pid = some p) (hstage : p.stage = .send) :
    p.idx = σ.shared.posted.length := by
  have hok := hassert pid p hp
  have hsending : isSending p.stage = true := by
    rw [hstage]
    rfl
  obtain ⟨e, hrow, -⟩ := hok.leased hsending
  apply Nat.le_antisymm
  · by_contra hgt
    have hlt : σ.shared.posted.length < p.messageIds.length := Nat.not_le.mp hgt
    have hfetched := hok.fetched _ _ (List.getElem?_eq_getElem hlt)
    obtain ⟨c, hc, -⟩ := hinv.outcome _ _ hfetched
    have hbound := (List.getElem?_eq_some_iff.mp hc).1
    omega
  · by_contra hlt
    have hget := List.getElem?_eq_getElem (Nat.not_le.mp hlt)
    rcases hopen _ _ hget with hout | ⟨-, q, r, hr, hsent, hidx⟩
    · rw [outcome?, hrow] at hout
      cases hout
    · -- The owner of the lease is this request.
      have hrow' : ∃ e', row? reply σ.shared r.idx =
          some ⟨none, some (q, r.idx), some e'⟩ ∧ σ.shared.now < e' := by
        apply (hassert q r hr).leased
        rw [hsent]
        rfl
      obtain ⟨e', hrow', -⟩ := hrow'
      rw [hidx, hrow] at hrow'
      cases hrow'
      cases hp.symm.trans hr
      rw [hstage] at hsent
      cases hsent

/-- What one step of request `pid` preserves. -/
structure StepOk (reply : Reply) (cs : List PyStr) (pid : ℕ) (q : ReplyRequest)
    (s s' : ReplyStore) : Prop where
  inv : Inv reply cs s'
  own : RequestOk reply cs pid q s'
  outcomes : ∀ i m, outcome? reply s i = some m → outcome? reply s' i = some m
  others : ∀ other r, other ≠ pid → RequestOk reply cs other r s → RequestOk reply cs other r s'

theorem StepOk.of_same {pid : ℕ} {q : ReplyRequest} (hinv : Inv reply cs s)
    (hown : RequestOk reply cs pid q s) : StepOk reply cs pid q s s :=
  ⟨hinv, hown, fun _ _ hm ↦ hm, fun _ _ _ hr ↦ hr⟩

/-- The store after the current chunk was posted. -/
def post (p : ReplyRequest) (m : MessageId) (s : ReplyStore) : ReplyStore :=
  { s with posted := s.posted ++ [⟨p.session, p.nonce, p.chunks.getD p.idx [], m⟩] }

theorem getElem?_post_of_some {m : MessageId} {i : ℕ} {c : PostedChunk}
    (hc : s.posted[i]? = some c) : (post p m s).posted[i]? = some c :=
  (List.getElem?_append_left (List.getElem?_eq_some_iff.mp hc).1).trans hc

theorem getElem?_post_self {m : MessageId} (hlen : p.idx = s.posted.length) :
    (post p m s).posted[p.idx]? = some ⟨p.session, p.nonce, p.chunks.getD p.idx [], m⟩ := by
  rw [post, hlen]
  exact List.getElem?_concat_length

theorem post_ok {pid : ℕ} {m : MessageId} (hinv : Inv reply cs s)
    (hok : RequestOk reply cs pid p s) (hstage : p.stage = .send)
    (hlen : p.idx = s.posted.length) :
    StepOk reply cs pid (p.goTo (.sent m)) s (post p m s) := by
  have hsending : isSending p.stage = true := by
    rw [hstage]
    rfl
  have hlt : p.idx < cs.length := hok.working (by rw [hstage]; rfl)
  have hlast := getElem?_post_self (m := m) hlen
  refine ⟨⟨fun i c hc ↦ ?_, fun i m' hm' ↦ ?_⟩, ?_, fun _ _ hm' ↦ hm', fun other r hne hr ↦ ?_⟩
  · rcases Nat.lt_or_ge i s.posted.length with hi | hi
    · exact hinv.chunk i c ((List.getElem?_append_left hi).symm.trans hc)
    · have hbound := (List.getElem?_eq_some_iff.mp hc).1
      have hi' : i = p.idx := by
        simp only [post, List.length_append, List.length_singleton] at hbound
        omega
      subst hi'
      cases hlast.symm.trans hc
      refine ⟨hok.isFor.session, congrArg (chunkNonce · p.idx) hok.isFor.key, ?_⟩
      rw [hok.chunks, List.getD_eq_getElem?_getD, List.getElem?_eq_getElem hlt]
      rfl
  · obtain ⟨c, hc, hid⟩ := hinv.outcome i m' hm'
    exact ⟨c, getElem?_post_of_some hc, hid⟩
  · constructor
    · exact ⟨hok.isFor.session, hok.isFor.key⟩
    · exact hok.chunks
    · exact (nomatch ·)
    · exact fun _ ↦ hlt
    · exact (nomatch ·)
    · exact hok.fetched
    · exact fun _ ↦ hok.leased hsending
    · intro m' hs
      cases hs
      refine ⟨?_, _, hlast, rfl⟩
      rw [post, List.length_append, ← hlen]
      rfl
    · exact fun _ hs ↦ (nomatch hs)
  · refine ⟨hr.isFor, hr.chunks, hr.fresh, hr.working, hr.done, hr.fetched, hr.leased, ?_,
      hr.released⟩
    -- Another request that sent its chunk is past its checkpoint.
    intro m' hs
    obtain ⟨hidx, -⟩ := hr.sent m' hs
    obtain ⟨e, hrow, -⟩ := hr.leased (by rw [hs]; rfl)
    have hfetched : r.idx < p.messageIds.length := by
      have hlen' : p.messageIds.length = s.posted.length := hlen
      omega
    have hout := hok.fetched _ _ (List.getElem?_eq_getElem hfetched)
    rw [outcome?, hrow] at hout
    cases hout

/-- The checkpoint of the current chunk. -/
theorem checkpoint_ok {pid : ℕ} {m : MessageId} (hinv : Inv reply cs s)
    (hok : RequestOk reply cs pid p s) (hstage : p.stage = .sent m) :
    StepOk reply cs pid (p.goTo (.release (.ok m))) s (p.updateOwned (pid, p.idx)
      (fun row ↦ { row with outcome := some m, claimExpiresAt := none }) s) := by
  obtain ⟨e, hrow, -⟩ := hok.leased (by rw [hstage]; rfl)
  obtain ⟨-, c, hc, hid⟩ := hok.sent m hstage
  have hout : ∀ i, outcome? reply (p.updateOwned (pid, p.idx)
      (fun row ↦ { row with outcome := some m, claimExpiresAt := none }) s) i =
      if i = p.idx then some m else outcome? reply s i := by
    intro i
    rw [outcome?, row?_updateOwned hok.isFor]
    split
    · rename_i hi
      rw [hi, hrow, Option.map_some, if_pos rfl]
      rfl
    · rfl
  have hfetched : ∀ i m', outcome? reply s i = some m' → i ≠ p.idx := by
    rintro i m' hm' rfl
    rw [outcome?, hrow] at hm'
    cases hm'
  refine ⟨hinv.of_posted rfl fun i m' hm' ↦ ?_, ?_, fun i m' hm' ↦ ?_,
    fun other r hne hr ↦ hr.frame ?_⟩
  · rw [hout] at hm'
    split at hm'
    · rename_i hi
      cases hm'
      exact .inr ⟨c, hi ▸ hc, hid⟩
    · exact .inl hm'
  · constructor
    · exact ⟨hok.isFor.session, hok.isFor.key⟩
    · exact hok.chunks
    · exact (nomatch ·)
    · exact fun _ ↦ hok.working (by rw [hstage]; rfl)
    · exact (nomatch ·)
    · intro i m' hm'
      have hold := hok.fetched i m' hm'
      rw [hout, if_neg (hfetched i m' hold)]
      exact hold
    · exact (nomatch ·)
    · exact fun _ hs ↦ (nomatch hs)
    · intro m' hs
      cases hs
      rw [hout]
      exact if_pos rfl
  · rw [hout, if_neg (hfetched i m' hm')]
    exact hm'
  · refine updateOwned_frame hok.isFor hne.symm fun row hrow' _ m' hm' ↦ ?_
    cases hrow.symm.trans hrow'
    cases hm'

/-- The `finally` clause. -/
theorem release_ok {pid : ℕ} {result : Except ℕ MessageId} (hinv : Inv reply cs s)
    (hok : RequestOk reply cs pid p s) (hstage : p.stage = .release result) :
    StepOk reply cs pid (match result with
        | .ok m => p.advance m
        | .error status => p.goTo (.refused status)) s
      (p.updateOwned (pid, p.idx) (fun row ↦ { row with claimExpiresAt := none }) s) := by
  have hout : ∀ i, outcome? reply
      (p.updateOwned (pid, p.idx) (fun row ↦ { row with claimExpiresAt := none }) s) i =
      outcome? reply s i := by
    intro i
    rw [outcome?, row?_updateOwned hok.isFor, outcome?]
    split
    · cases row? reply s i with
      | none => rfl
      | some row =>
          rw [Option.map_some]
          split <;> rfl
    · rfl
  have hcurrent : RequestOk reply cs pid p
      (p.updateOwned (pid, p.idx) (fun row ↦ { row with claimExpiresAt := none }) s) := by
    refine ⟨hok.isFor, hok.chunks, hok.fresh, hok.working, hok.done, ?_, ?_, ?_, ?_⟩
    · exact fun i m hm ↦ (hout i).trans (hok.fetched i m hm)
    · rw [hstage]
      exact (nomatch ·)
    · rw [hstage]
      exact fun m hs ↦ (nomatch hs)
    · exact fun m hs ↦ (hout _).trans (hok.released m hs)
  refine ⟨hinv.of_posted rfl fun i m hm ↦ .inl ((hout i).symm.trans hm), ?_,
    fun i m hm ↦ (hout i).trans hm, fun other r hne hr ↦ hr.frame ?_⟩
  · cases result with
    | ok m =>
        apply hcurrent.advance
        · rw [hstage]
          rfl
        · exact hcurrent.released m hstage
    | error status =>
        exact hcurrent.refuse status
  · exact updateOwned_frame hok.isFor hne.symm fun _ _ _ _ hm ↦ hm

theorem replyChunks_ne_nil (env : Redactor) (text : PyStr) : replyChunks env text ≠ [] := by
  unfold replyChunks
  dsimp only
  split
  · exact List.cons_ne_nil _ _
  · assumption

theorem lookup_ok {pid : ℕ} {info : Option SessionInfo} {allowed : Bool} (hcs : cs ≠ [])
    (hok : RequestOk reply cs pid p s) (hstage : p.stage = .lookup) :
    RequestOk reply cs pid (p.lookup info allowed) s := by
  unfold ReplyRequest.lookup
  split
  · exact hok.refuse 404
  · split
    · exact hok.refuse 404
    · split
      · exact hok.refuse 409
      · split
        · exact hok.refuse 503
        · refine ⟨⟨hok.isFor.session, hok.isFor.key⟩, hok.chunks, (nomatch ·), fun _ ↦ ?_,
            (nomatch ·), hok.fetched, (nomatch ·), fun _ hs ↦ (nomatch hs),
            fun _ hs ↦ (nomatch hs)⟩
          change p.messageIds.length < cs.length
          rw [hok.fresh hstage]
          exact List.length_pos_iff.mpr hcs

/-- The row of the current chunk is read, and inserted if there is none. -/
theorem readOutcome_ok {pid : ℕ} {info : Option SessionInfo} {q : ReplyRequest} {s' : ReplyStore}
    (hinv : Inv reply cs s) (hok : RequestOk reply cs pid p s)
    (h : p.step pid info s .readOutcome = some (s', q)) : StepOk reply cs pid q s s' := by
  simp only [ReplyRequest.step] at h
  split at h
  · rename_i hstage
    have hworking : isWorking p.stage = true := by
      rw [hstage]
      rfl
    have hframe := pendingRow_frame (s := s) hok.isFor
    have hcurrent := hok.frame (hframe pid)
    have hinv' : Inv reply cs (p.pendingRow s) := by
      refine hinv.of_posted (hframe pid).posted fun i m hm ↦ .inl ?_
      exact (outcome?_pendingRow hok.isFor i).symm.trans hm
    have hothers : ∀ other r, other ≠ pid → RequestOk reply cs other r s →
        RequestOk reply cs other r (p.pendingRow s) :=
      fun other r _ hr ↦ hr.frame (hframe other)
    split at h
    · rename_i m hm
      cases h
      rw [hok.isFor.rowKey] at hm
      exact ⟨hinv', hcurrent.advance hworking hm, (hframe pid).outcome, hothers⟩
    · cases h
      refine ⟨hinv', ?_, (hframe pid).outcome, hothers⟩
      exact hcurrent.goTo rfl (fun _ ↦ hworking) fun hs ↦ absurd hs Bool.false_ne_true
  · cases h

/-- The lease of the current chunk. -/
theorem claim_ok {pid : ℕ} {info : Option SessionInfo} {q : ReplyRequest} {s' : ReplyStore}
    (hinv : Inv reply cs s) (hok : RequestOk reply cs pid p s)
    (h : p.step pid info s .claim = some (s', q)) : StepOk reply cs pid q s s' := by
  simp only [ReplyRequest.step] at h
  split at h
  · rename_i hstage
    split at h
    · cases h
      exact .of_same hinv (hok.refuse _)
    · rename_i hclaim
      cases h
      have hframe := claimRow_frame hok.isFor hclaim
      obtain ⟨row, hrow, hnone, -, -, hnow, hrows⟩ := row?_claimRow hok.isFor hclaim
      refine ⟨hinv.of_posted (hframe pid).posted fun i m hm ↦ .inl ?_, ?_,
        (hframe pid).outcome, fun other r _ hr ↦ hr.frame (hframe other)⟩
      · rw [outcome?, hrows] at hm
        split at hm
        · rename_i hi
          rw [Option.bind_some, hnone] at hm
          cases hm
        · exact hm
      · refine (hok.frame (hframe pid)).goTo rfl (fun _ ↦ by rw [hstage]; rfl) fun _ ↦ ?_
        refine ⟨s.now + claimLeaseMs, ?_, ?_⟩
        · rw [hrows, if_pos rfl, hnone]
        · rw [hnow]
          exact Nat.lt_add_of_pos_right (by decide)
  · cases h

/-- The fence and the revalidation before the post. -/
theorem check_ok {pid : ℕ} {info : Option SessionInfo} {allowed : Bool} {q : ReplyRequest}
    {s' : ReplyStore} (hinv : Inv reply cs s) (hok : RequestOk reply cs pid p s)
    (h : p.step pid info s (.check allowed) = some (s', q)) : StepOk reply cs pid q s s' := by
  simp only [ReplyRequest.step] at h
  split at h <;> cases h
  rename_i hstage
  have hworking : isWorking p.stage = true := by
    rw [hstage]
    rfl
  apply StepOk.of_same hinv
  split
  · exact hok.leave hworking _
  · split
    · refine hok.goTo rfl (fun _ ↦ hworking) fun _ ↦ ?_
      apply hok.leased
      rw [hstage]
      rfl
    · exact hok.leave hworking _

/-- The answer of Discord; only a request that finds all earlier chunks posted sends. -/
theorem send_ok {pid : ℕ} {info : Option SessionInfo} {result : SendResult} {q : ReplyRequest}
    {s' : ReplyStore} (hinv : Inv reply cs s) (hok : RequestOk reply cs pid p s)
    (hlen : p.stage = .send → p.idx = s.posted.length)
    (h : p.step pid info s (.send result) = some (s', q)) : StepOk reply cs pid q s s' := by
  simp only [ReplyRequest.step] at h
  split at h
  · rename_i hstage
    cases result with
    | delivered m =>
        cases h
        exact post_ok hinv hok hstage (hlen hstage)
    | quotaExceeded | rejected | failed =>
        cases h
        refine .of_same hinv (hok.leave ?_ _)
        rw [hstage]
        rfl
  · cases h

theorem step_ok {σ : ApiState} {pid : ℕ} {info : Option SessionInfo} {a : ReplyAction}
    {q : ReplyRequest} {s' : ReplyStore} (hcs : cs ≠ []) (hinv : Inv reply cs σ.shared)
    (hopen : Checkpointed reply σ)
    (hassert : ∀ pid p, σ.procs pid = some p → RequestOk reply cs pid p σ.shared)
    (ha : a ≠ .checkpointFails) (hp : σ.procs pid = some p)
    (h : p.step pid info σ.shared a = some (s', q)) :
    StepOk reply cs pid q σ.shared s' := by
  have hok := hassert pid p hp
  cases a with
  | lookup allowed =>
      simp only [ReplyRequest.step] at h
      split at h <;> cases h
      rename_i hstage
      exact .of_same hinv (lookup_ok hcs hok hstage)
  | readOutcome => exact readOutcome_ok hinv hok h
  | claim => exact claim_ok hinv hok h
  | check allowed => exact check_ok hinv hok h
  | send result => exact send_ok hinv hok (idx_eq_length hinv hopen hassert hp) h
  | checkpoint =>
      simp only [ReplyRequest.step] at h
      split at h <;> cases h
      rename_i m hstage
      exact checkpoint_ok hinv hok hstage
  | checkpointFails => exact absurd rfl ha
  | release =>
      simp only [ReplyRequest.step] at h
      split at h
      · rename_i result hstage
        have hrelease := release_ok hinv hok hstage
        cases result <;> cases h <;> exact hrelease
      · cases h

/-! ## Every run -/

/-- What a step of a request does to the chunks: nothing, or it posts the next one. -/
theorem step_posted {pid : ℕ} {info : Option SessionInfo} {a : ReplyAction} {q : ReplyRequest}
    {s' : ReplyStore} (h : p.step pid info s a = some (s', q)) : s'.posted = s.posted ∨
      p.stage = .send ∧ ∃ m, s' = post p m s ∧ q = p.goTo (.sent m) := by
  cases a with
  | lookup allowed =>
      simp only [ReplyRequest.step] at h
      split at h <;> cases h
      exact .inl rfl
  | readOutcome =>
      simp only [ReplyRequest.step] at h
      have hposted : (p.pendingRow s).posted = s.posted := by
        unfold ReplyRequest.pendingRow
        split <;> rfl
      split at h
      · split at h <;> cases h <;> exact .inl hposted
      · cases h
  | claim =>
      simp only [ReplyRequest.step] at h
      split at h
      · split at h
        · cases h
          exact .inl rfl
        · rename_i hclaim
          cases h
          unfold ReplyRequest.claimRow at hclaim
          split at hclaim
          · cases hclaim
          · split at hclaim <;> cases hclaim
            exact .inl rfl
      · cases h
  | check allowed =>
      simp only [ReplyRequest.step] at h
      split at h <;> cases h
      exact .inl rfl
  | send result =>
      simp only [ReplyRequest.step] at h
      split at h
      · rename_i hstage
        cases result with
        | delivered m =>
            cases h
            exact .inr ⟨hstage, m, rfl, rfl⟩
        | quotaExceeded | rejected | failed =>
            cases h
            exact .inl rfl
      · cases h
  | checkpoint =>
      simp only [ReplyRequest.step] at h
      split at h <;> cases h
      exact .inl rfl
  | checkpointFails =>
      simp only [ReplyRequest.step] at h
      split at h <;> cases h
      exact .inl rfl
  | release =>
      simp only [ReplyRequest.step] at h
      split at h <;> cases h
      exact .inl rfl

structure Delivering (reply : Reply) (cs : List PyStr) (σ : ApiState) : Prop
    extends Machine.Annotated (Inv reply cs) (RequestOk reply cs) σ where
  checkpointed : Checkpointed reply σ

variable {env : Redactor} {σ τ : ApiState}

theorem begin_ok {version : Option ℕ} {pid : ℕ} : RequestOk reply (replyChunks env reply.text) pid
    (.begin env reply.session ⟨reply.text, reply.idempotencyKey, version⟩) s :=
  ⟨⟨rfl, rfl⟩, rfl, fun _ ↦ rfl, (nomatch ·), (nomatch ·), (fun _ _ hm ↦ (nomatch hm)),
    (nomatch ·), fun _ hs ↦ (nomatch hs), fun _ hs ↦ (nomatch hs)⟩

/-- A step of request `pid` keeps the order of checkpoints. -/
theorem checkpointed_step {pid : ℕ} {info : Option SessionInfo} {a : ReplyAction}
    {q : ReplyRequest} {s' : ReplyStore} (h : Delivering reply cs σ) (hp : σ.procs pid = some p)
    (hs : p.step pid info σ.shared a = some (s', q))
    (hok : StepOk reply cs pid q σ.shared s') (ha : a ≠ .checkpointFails) :
    Checkpointed reply ⟨s', Function.update σ.procs pid (some q), σ.next⟩ := by
  intro i c hc
  rcases step_posted hs with hsame | ⟨hstage, m, rfl, rfl⟩
  · have hc' : σ.shared.posted[i]? = some c := hsame ▸ hc
    rcases h.checkpointed i c hc' with hout | ⟨hlast, r, q', hr, hsent, hidx⟩
    · exact .inl (hok.outcomes i _ hout)
    · by_cases hne : r = pid
      · -- The request sets its checkpoint.
        subst hne
        cases hp.symm.trans hr
        cases a with
        | checkpoint =>
            simp only [ReplyRequest.step, hsent] at hs
            cases hs
            exact .inl (hidx ▸ hok.own.released _ rfl)
        | checkpointFails => exact absurd rfl ha
        | _ =>
            simp only [ReplyRequest.step, hsent] at hs
            cases hs
      · refine .inr ⟨?_, r, q', (Function.update_of_ne hne _ _).trans hr, hsent, hidx⟩
        rw [hlast]
        exact congrArg List.length hsame.symm
  · have hlen := idx_eq_length h.inv h.checkpointed h.assert hp hstage
    rcases Nat.lt_or_ge i p.idx with hi | hi
    · left
      have hfetched := (h.assert pid p hp).fetched i _ (List.getElem?_eq_getElem hi)
      obtain ⟨c', hc', hid⟩ := h.inv.outcome i _ hfetched
      have hsame : c' = c :=
        Option.some.inj ((getElem?_post_of_some hc').symm.trans hc)
      rw [← hsame, hid]
      exact hok.outcomes i _ hfetched
    · have hbound := (List.getElem?_eq_some_iff.mp hc).1
      simp only [post, List.length_append, List.length_singleton] at hbound
      have hi' : i = p.idx := by omega
      subst hi'
      cases (getElem?_post_self hlen).symm.trans hc
      refine .inr ⟨?_, pid, _, Function.update_self _ _ _, rfl, rfl⟩
      simp only [post, List.length_append, List.length_singleton]
      omega

theorem Delivering.step {a : ApiAction} (h : Delivering reply (replyChunks env reply.text) σ)
    (hok : Undisturbed reply σ a) (hs : (api env reply).step σ a = some τ) :
    Delivering reply (replyChunks env reply.text) τ := by
  obtain ⟨ms, s, rfl, he, rfl⟩ | ⟨version, s, p, rfl, hn, rfl⟩ |
    ⟨pid, b, p, s, q, rfl, hp, hb, rfl⟩ := Machine.step_cases hs
  · cases he
    refine ⟨⟨⟨h.inv.chunk, h.inv.outcome⟩, fun pid p hp ↦ ?_, h.fresh⟩, h.checkpointed⟩
    have hp' := h.assert pid p hp
    refine ⟨hp'.isFor, hp'.chunks, hp'.fresh, hp'.working, hp'.done, hp'.fetched, ?_, hp'.sent,
      hp'.released⟩
    intro hsending
    obtain ⟨e, hrow, -⟩ := hp'.leased hsending
    exact ⟨e, hrow, hok pid p hp hsending _ e hrow rfl⟩
  · have hfree := h.fresh σ.next le_rfl
    simp only [api] at hn
    split at hn <;> cases hn
    refine ⟨⟨h.inv, fun pid r hr ↦ ?_, fun pid hpid ↦ ?_⟩, fun i c hc ↦ ?_⟩
    · simp only [Function.update_apply] at hr
      split at hr
      · cases hr
        exact begin_ok
      · exact h.assert pid r hr
    · exact (Function.update_of_ne (Nat.ne_of_gt hpid) _ _).trans
        (h.fresh pid (Nat.le_of_succ_le hpid))
    · rcases h.checkpointed i c hc with hout | ⟨hlast, r, q, hr, hsent, hidx⟩
      · exact .inl hout
      · refine .inr ⟨hlast, r, q, (Function.update_of_ne ?_ _ _).trans hr, hsent, hidx⟩
        rintro rfl
        cases hfree.symm.trans hr
  · have hne : ∀ q, σ.next ≤ q → q ≠ pid := by
      rintro q hq rfl
      cases (h.fresh q hq).symm.trans hp
    have hfresh : ∀ r q, σ.next ≤ q → Function.update σ.procs pid r q = none :=
      fun r q hq ↦ (Function.update_of_ne (hne q hq) _ _).trans (h.fresh q hq)
    cases b with
    | crash =>
        cases hb
        refine ⟨⟨h.inv, fun other r hr ↦ ?_, hfresh none⟩, fun i c hc ↦ ?_⟩
        · simp only [Function.update_apply] at hr
          split at hr
          · cases hr
          · exact h.assert other r hr
        · rcases h.checkpointed i c hc with hout | ⟨hlast, r, q, hr, hsent, hidx⟩
          · exact .inl hout
          · refine .inr ⟨hlast, r, q, (Function.update_of_ne ?_ _ _).trans hr, hsent, hidx⟩
            rintro rfl
            exact hok q _ hr hsent
    | step info a =>
        obtain ⟨⟨s', q'⟩, hstep, he⟩ := Option.map_eq_some_iff.mp hb
        cases he
        have ha : a ≠ .checkpointFails := by
          rintro rfl
          exact hok
        have hkept := step_ok (replyChunks_ne_nil env reply.text) h.inv h.checkpointed h.assert
          ha hp hstep
        refine ⟨⟨hkept.inv, fun other r hr ↦ ?_, hfresh _⟩, checkpointed_step h hp hstep hkept ha⟩
        simp only [Function.update_apply] at hr
        split at hr
        · rename_i hother
          cases hr
          exact hother ▸ hkept.own
        · rename_i hother
          exact hkept.others other r hother (h.assert other r hr)

theorem Delivered.delivering (h : Delivered env reply σ) :
    Delivering reply (replyChunks env reply.text) σ := by
  refine h.invariant ?_ fun _ _ _ _ hσ ha hs ↦ hσ.step ha hs
  rintro s ⟨hposted, hrows⟩
  refine ⟨.start ⟨fun i c hc ↦ ?_, fun i m hm ↦ ?_⟩, fun i c hc ↦ ?_⟩
  · rw [hposted] at hc
    cases hc
  · rw [outcome?, hrows] at hm
    cases hm
  · change s.posted[i]? = some c at hc
    rw [hposted] at hc
    cases hc

/-! ## The guarantees -/

theorem Inv.contents (h : Inv reply cs s) : s.posted.map PostedChunk.content <+: cs := by
  rw [List.prefix_iff_getElem?]
  intro i hi
  rw [List.length_map] at hi
  rw [List.getElem_map]
  exact (h.chunk i _ (List.getElem?_eq_getElem hi)).2.2

theorem Inv.nonces (h : Inv reply cs s) : s.posted.map PostedChunk.nonce =
    (List.range s.posted.length).map (chunkNonce reply.idempotencyKey) := by
  apply List.ext_getElem
  · rw [List.length_map, List.length_map, List.length_range]
  · intro i hi _
    rw [List.length_map] at hi
    rw [List.getElem_map, List.getElem_map, List.getElem_range]
    exact (h.chunk i _ (List.getElem?_eq_getElem hi)).2.1

theorem messageIds_of_done {pid : ℕ} (h : Delivering reply cs σ) (hp : σ.procs pid = some p)
    (hdone : p.stage = .done) : σ.shared.posted.map PostedChunk.content = cs ∧
      p.messageIds = σ.shared.posted.map PostedChunk.messageId := by
  have hok := h.assert pid p hp
  have hposted : ∀ i m, p.messageIds[i]? = some m →
      ∃ c : PostedChunk, σ.shared.posted[i]? = some c ∧ c.messageId = m :=
    fun i m hm ↦ h.inv.outcome i m (hok.fetched i m hm)
  have hpre := h.inv.contents
  have hle : σ.shared.posted.length ≤ cs.length := by
    rw [← List.length_map PostedChunk.content]
    exact hpre.length_le
  have hge : cs.length ≤ σ.shared.posted.length := by
    by_contra hlt
    have hids : σ.shared.posted.length < p.messageIds.length := by
      have hlen : p.messageIds.length = cs.length := hok.done hdone
      omega
    obtain ⟨c, hc, -⟩ := hposted _ _ (List.getElem?_eq_getElem hids)
    have hbound := (List.getElem?_eq_some_iff.mp hc).1
    omega
  constructor
  · apply hpre.eq_of_length
    rw [List.length_map]
    exact Nat.le_antisymm hle hge
  · apply List.ext_getElem
    · rw [List.length_map]
      exact (hok.done hdone).trans (Nat.le_antisymm hge hle)
    · intro i hi _
      obtain ⟨c, hc, hid⟩ := hposted i _ (List.getElem?_eq_getElem hi)
      obtain ⟨hi', hget⟩ := List.getElem?_eq_some_iff.mp hc
      rw [List.getElem_map, ← hid, ← hget]

/-- At every moment the chunks on Discord are the first ones of the reply, each posted once and
in order; a request succeeds only when all are there, and it returns their message ids. -/
theorem reply_prefix_ordered (h : Delivered env reply σ) :
    σ.shared.posted.map PostedChunk.content <+: replyChunks env reply.text ∧
    σ.shared.posted.map PostedChunk.nonce =
      (List.range σ.shared.posted.length).map (chunkNonce reply.idempotencyKey) ∧
    ∀ pid p, σ.procs pid = some p → p.stage = .done →
      σ.shared.posted.map PostedChunk.content = replyChunks env reply.text ∧
      p.messageIds = σ.shared.posted.map PostedChunk.messageId := by
  have hσ := h.delivering
  exact ⟨hσ.inv.contents, hσ.inv.nonces, fun pid p hp hdone ↦ messageIds_of_done hσ hp hdone⟩

/-! ## Instances -/

def redactor : Redactor := ⟨.asciiOnly, []⟩

def liveInfo : Option SessionInfo := some ⟨.running, 0⟩

def requestRun (pid : ℕ) (as : List ReplyAction) : List ApiAction :=
  as.map fun a ↦ .exec pid (.step liveInfo a)

/-- Two requests for the same reply; the second one finds the message of the first. -/
def retriedRun : List ApiAction :=
  [.spawn none, .spawn none] ++ requestRun 0 [.lookup true, .readOutcome, .claim, .check true,
    .send (.delivered 70), .checkpoint] ++ requestRun 1 [.lookup true, .readOutcome]

def greeting : Reply := ⟨1, pyStr "hi", pyStr "k"⟩

def retriedState : ApiState :=
  ((api redactor greeting).run (.start .empty) retriedRun).get (by decide +kernel)

theorem unposted_empty (reply : Reply) : Unposted reply .empty := ⟨rfl, fun _ ↦ rfl⟩

theorem reply_prefix_ordered_retried : ∃ p, retriedState.procs 1 = some p ∧
    p.messageIds = retriedState.shared.posted.map PostedChunk.messageId ∧
      retriedState.shared.posted.map PostedChunk.content = [pyStr "hi"] := by
  have hrun : (api redactor greeting).run (.start .empty) retriedRun = some retriedState :=
    (Option.some_get _).symm
  have hreach : Delivered redactor greeting retriedState := by
    refine ⟨.empty, unposted_empty greeting, .of_run ?_ hrun⟩
    simp [retriedRun, requestRun, Undisturbed]
  obtain ⟨p, hp⟩ : ∃ p, retriedState.procs 1 = some p :=
    Option.isSome_iff_exists.mp (by decide +kernel)
  have hdone : (retriedState.procs 1).map ReplyRequest.stage = some .done := by decide +kernel
  rw [hp] at hdone
  obtain ⟨-, -, hsuccess⟩ := reply_prefix_ordered hreach
  obtain ⟨hcontents, hids⟩ := hsuccess 1 p hp (Option.some.inj hdone)
  exact ⟨p, hp, hids, hcontents.trans (by decide +kernel)⟩

/-- An empty reply has no chunks, and is posted as one empty message. -/
def silence : Reply := ⟨1, [], pyStr "k"⟩

def silenceRun : List ApiAction :=
  .spawn none :: requestRun 0 [.lookup true, .readOutcome, .claim, .check true,
    .send (.delivered 70)]

theorem empty_reply_is_posted : ¬ ∀ (env : Redactor) (reply : Reply) (σ : ApiState),
    Delivered env reply σ → σ.shared.posted.map PostedChunk.content <+:
      buildMessage env.words (applyCommonRedaction env reply.text) := by
  intro hclaim
  obtain ⟨σ, hrun⟩ : ∃ σ, (api redactor silence).run (.start .empty) silenceRun = some σ :=
    Option.isSome_iff_exists.mp (by decide +kernel)
  have hposted : ((api redactor silence).run (.start .empty) silenceRun).map
      (fun σ ↦ σ.shared.posted.map PostedChunk.content) = some [[]] := by decide +kernel
  have hchunks : buildMessage redactor.words (applyCommonRedaction redactor silence.text) = [] := by
    decide +kernel
  have hreach : Delivered redactor silence σ := by
    refine ⟨.empty, unposted_empty silence, .of_run ?_ hrun⟩
    simp [silenceRun, requestRun, Undisturbed]
  have hpre := hclaim redactor silence σ hreach
  rw [hrun] at hposted
  have hempty : σ.shared.posted.map PostedChunk.content = [[]] := Option.some.inj hposted
  rw [hempty, hchunks] at hpre
  exact absurd (List.prefix_nil.mp hpre) (List.cons_ne_nil _ _)

end Discode.ReplyDelivery
