import Mathlib.Data.Nat.Notation
import Mathlib.Order.MinMax

/-!
# `DiscordRestClient.send_message`

The loop over the answers to its POSTs, with the one PATCH that unarchives the thread.  It
makes at most two POSTs more than the retries it is allowed, and it takes a reply for
undeliverable only on a final rejection, except where the PATCH fails for a passing reason
or a status is not one of HTTP's.
-/

set_option autoImplicit false

namespace Discode

namespace DiscordSend

/-- A response to a POST, as far as the loop looks at it. -/
structure Response where
  status : ℕ
  /-- `str(data["id"])`, where the body is JSON and has the key. -/
  id : Option String
  /-- `retry_after` is a number from 0 to 60. -/
  retryAfterInBudget : Bool
  deriving DecidableEq, Repr

inductive Post where
  /-- `ensure_outbound_allowed` raises before anything is sent. -/
  | refused
  | networkError
  | response (r : Response)
  deriving DecidableEq, Repr

/-- What becomes of `PATCH /channels/<thread>`, should it be made. -/
inductive Patch where
  | refused
  | networkError
  | response (status : ℕ)
  deriving DecidableEq, Repr

inductive Failure where
  | executionDenied
  | network
  | unreadableBody
  | retryBudgetExhausted
  | retryAfterOutsideBudget
  | retriesFailed (status : ℕ)
  deriving DecidableEq, Repr

/-- How the call ends.  With a `DiscordPermanentError` goes the answer to the PATCH that was
made for the same POST, if there was one. -/
inductive Result where
  | sent (id : String)
  | permanent (status : ℕ) (unarchiving : Option Patch)
  | failed (e : Failure)
  /-- The last POST is not yet answered. -/
  | waiting
  deriving DecidableEq, Repr

/-- The variables of the loop. -/
structure Sending where
  attempt : ℕ
  unarchived : Bool
  deriving DecidableEq, Repr

inductive Round where
  | stop (r : Result)
  | again (s : Sending)
  deriving DecidableEq, Repr

/-- `resp.ok` of aiohttp. -/
def ok (status : ℕ) : Bool := status < 400

/-- `500 <= resp.status < 600`. -/
def serverError (status : ℕ) : Bool := 500 ≤ status && status < 600

/-- `_unarchive_thread`; `none` where it raises. -/
def unarchiveThread : Patch → Option Bool
  | .refused => none
  | .networkError => some false
  | .response status => some (ok status)

/-- What is left of a round that neither returns nor goes on with an unarchived thread. -/
def retryOrRaise (maxRetries : ℕ) (s : Sending) (r : Response) (unarchiving : Option Patch) :
    Round :=
  if r.status = 429 then
    if maxRetries ≤ s.attempt then .stop (.failed .retryBudgetExhausted)
    else if r.retryAfterInBudget then .again { s with attempt := s.attempt + 1 }
    else .stop (.failed .retryAfterOutsideBudget)
  else if serverError r.status then
    if maxRetries ≤ s.attempt then .stop (.failed (.retriesFailed r.status))
    else .again { s with attempt := s.attempt + 1 }
  else .stop (.permanent r.status unarchiving)

def round (maxRetries : ℕ) (patch : Patch) (s : Sending) : Post → Round
  | .refused => .stop (.failed .executionDenied)
  | .networkError => .stop (.failed .network)
  | .response r =>
      if ok r.status then .stop (r.id.elim (.failed .unreadableBody) .sent)
      else if r.status = 405 ∧ s.unarchived = false then
        match unarchiveThread patch with
        | none => .stop (.failed .executionDenied)
        | some true => .again { s with unarchived := true }
        | some false => retryOrRaise maxRetries { s with unarchived := true } r (some patch)
      else retryOrRaise maxRetries s r none

/-- The result, with the number of POSTs made. -/
structure Sent where
  result : Result
  posts : ℕ
  deriving DecidableEq, Repr

/-- Whether the POST was made at all. -/
def Post.made : Post → ℕ
  | .refused => 0
  | _ => 1

def loop (maxRetries : ℕ) (patch : Patch) : Sending → List Post → Sent
  | _, [] => ⟨.waiting, 1⟩
  | s, post :: posts =>
      match round maxRetries patch s post with
      | .stop r => ⟨r, post.made⟩
      | .again s' =>
          let rest := loop maxRetries patch s' posts
          ⟨rest.result, rest.posts + post.made⟩

def sendMessage (maxRetries : ℕ) (patch : Patch) (posts : List Post) : Sent :=
  loop maxRetries patch ⟨0, false⟩ posts

/-! ## The number of POSTs -/

/-- How often the loop may still go on. -/
def Sending.left (maxRetries : ℕ) (s : Sending) : ℕ :=
  maxRetries - s.attempt + if s.unarchived then 0 else 1

theorem retryOrRaise_again {maxRetries : ℕ} {s s' : Sending} {r : Response}
    {unarchiving : Option Patch} (h : retryOrRaise maxRetries s r unarchiving = .again s') :
    s.attempt < maxRetries ∧ s' = { s with attempt := s.attempt + 1 } := by
  unfold retryOrRaise at h
  split at h
  · split at h
    · cases h
    · rename_i hattempt
      split at h <;> cases h
      exact ⟨not_le.mp hattempt, rfl⟩
  · split at h
    · split at h <;> cases h
      rename_i hattempt
      exact ⟨not_le.mp hattempt, rfl⟩
    · cases h

/-- A round that goes on has a retry less, or has unarchived the thread. -/
theorem round_again {maxRetries : ℕ} {patch : Patch} {s s' : Sending} {post : Post}
    (h : round maxRetries patch s post = .again s') :
    (s.attempt < maxRetries ∧ s'.attempt = s.attempt + 1 ∧ (s.unarchived → s'.unarchived)) ∨
    (s.unarchived = false ∧ s' = { s with unarchived := true }) := by
  cases post with
  | refused => cases h
  | networkError => cases h
  | response r =>
      simp only [round] at h
      split at h
      · cases h
      · split at h
        · rename_i h405
          split at h
          · cases h
          · cases h
            exact .inr ⟨h405.2, rfl⟩
          · obtain ⟨hlt, rfl⟩ := retryOrRaise_again h
            exact .inl ⟨hlt, rfl, fun _ ↦ rfl⟩
        · obtain ⟨hlt, rfl⟩ := retryOrRaise_again h
          exact .inl ⟨hlt, rfl, id⟩

theorem round_again_left {maxRetries : ℕ} {patch : Patch} {s s' : Sending} {post : Post}
    (h : round maxRetries patch s post = .again s') : s'.left maxRetries < s.left maxRetries := by
  unfold Sending.left
  rcases round_again h with ⟨hlt, hattempt, hkeeps⟩ | ⟨hfalse, rfl⟩
  · rw [hattempt]
    cases hs : s.unarchived with
    | true =>
        rw [hkeeps hs]
        simp only [if_true]
        omega
    | false => split <;> simp <;> omega
  · simp [hfalse]

theorem posts_le {maxRetries : ℕ} {patch : Patch} (s : Sending) (posts : List Post) :
    (loop maxRetries patch s posts).posts ≤ s.left maxRetries + 1 := by
  induction posts generalizing s with
  | nil => exact Nat.le_add_left 1 _
  | cons post posts ih =>
      have hmade : post.made ≤ 1 := by cases post <;> simp [Post.made]
      unfold loop
      cases hround : round maxRetries patch s post with
      | stop r => exact hmade.trans (Nat.le_add_left 1 _)
      | again s' =>
          have hleft := round_again_left hround
          have hrest := ih s'
          dsimp only
          omega

/-! ## Which rejections are final -/

/-- A network error, 429 or 5xx. -/
def Patch.isTransient : Patch → Bool
  | .refused => false
  | .networkError => true
  | .response status => status == 429 || serverError status

/-- The reply is given up only for a 4xx other than 429, and not because the PATCH that should
have cured it failed for a passing reason. -/
def Definitive (r : Result) : Prop :=
  ∀ status unarchiving, r = .permanent status unarchiving →
    400 ≤ status ∧ status < 500 ∧ status ≠ 429 ∧ ∀ patch ∈ unarchiving, patch.isTransient = false

/-- Retried while retries are left. -/
def Response.isRetried (r : Response) : Bool :=
  (r.status == 429 && r.retryAfterInBudget) || serverError r.status

/-- The first response after those that are retried, with the retries left and the answers
after it. -/
def settling : ℕ → List Post → Option (Response × ℕ × List Post)
  | retries, .response r :: posts =>
      match retries with
      | 0 => some (r, 0, posts)
      | left + 1 => if r.isRetried then settling left posts else some (r, left + 1, posts)
  | _, _ => none

/-- No response that settles the POSTs has a status from 600 on. -/
def WithinHttp (retries : ℕ) (posts : List Post) : Prop :=
  ∀ r left rest, settling retries posts = some (r, left, rest) → r.status < 600

/-- Where the first settling response is a 405, the PATCH does not fail for a passing reason,
and no settling response has a status from 600 on. -/
def Answerable (retries : ℕ) (patch : Patch) (posts : List Post) : Prop :=
  ∀ r left rest, settling retries posts = some (r, left, rest) → r.status < 600 ∧
    (r.status = 405 → patch.isTransient = false ∧
      (unarchiveThread patch = some true → WithinHttp left rest))

theorem definitive_failed (e : Failure) : Definitive (.failed e) := fun _ _ h ↦ nomatch h

theorem definitive_waiting : Definitive .waiting := fun _ _ h ↦ nomatch h

theorem definitive_answered (id : Option String) :
    Definitive (id.elim (.failed .unreadableBody) .sent) := by
  cases id <;> exact fun _ _ h ↦ nomatch h

/-- What the end of a round makes of a response that is not ok. -/
inductive RetryOrRaise (maxRetries : ℕ) (s : Sending) (r : Response) (unarchiving : Option Patch) :
    Round → Prop where
  | retries (hretried : r.isRetried = true) (hlt : s.attempt < maxRetries) :
      RetryOrRaise maxRetries s r unarchiving (.again { s with attempt := s.attempt + 1 })
  | fails (e : Failure) (hstatus : r.status < 600) (hne : r.status ≠ 405)
      (hlast : r.isRetried = true → maxRetries ≤ s.attempt) :
      RetryOrRaise maxRetries s r unarchiving (.stop (.failed e))
  | raises (hretried : r.isRetried = false) (h429 : r.status ≠ 429)
      (hserver : serverError r.status = false) :
      RetryOrRaise maxRetries s r unarchiving (.stop (.permanent r.status unarchiving))

theorem retryOrRaise_cases (maxRetries : ℕ) (s : Sending) (r : Response)
    (unarchiving : Option Patch) :
    RetryOrRaise maxRetries s r unarchiving (retryOrRaise maxRetries s r unarchiving) := by
  unfold retryOrRaise
  split
  · rename_i h429
    split
    · rename_i hle
      exact .fails _ (by omega) (by omega) fun _ ↦ hle
    · rename_i hlt
      split
      · rename_i hbudget
        exact .retries (by simp [Response.isRetried, h429, hbudget]) (not_le.mp hlt)
      · rename_i hbudget
        refine .fails _ (by omega) (by omega) fun hretried ↦ ?_
        simp [Response.isRetried, h429, hbudget, serverError] at hretried
  · rename_i h429
    split
    · rename_i hserver
      have hrange : 500 ≤ r.status ∧ r.status < 600 := by simpa [serverError] using hserver
      split
      · rename_i hle
        exact .fails _ hrange.2 (by omega) fun _ ↦ hle
      · rename_i hlt
        exact .retries (by simp [Response.isRetried, hserver]) (not_le.mp hlt)
    · rename_i hserver
      have hfalse : serverError r.status = false := Bool.not_eq_true _ ▸ hserver
      exact .raises (by simp [Response.isRetried, h429, hfalse]) h429 hfalse

@[simp] theorem settling_nil (retries : ℕ) : settling retries [] = none := by
  cases retries <;> rfl

@[simp] theorem settling_refused (retries : ℕ) (posts : List Post) :
    settling retries (.refused :: posts) = none := by
  cases retries <;> rfl

@[simp] theorem settling_networkError (retries : ℕ) (posts : List Post) :
    settling retries (.networkError :: posts) = none := by
  cases retries <;> rfl

theorem settling_retried {retries : ℕ} {r : Response} (posts : List Post)
    (hretried : r.isRetried = true) :
    settling (retries + 1) (.response r :: posts) = settling retries posts := by
  simp [settling, hretried]

theorem settling_settled {retries : ℕ} {r : Response} (posts : List Post)
    (h : r.isRetried = true → retries = 0) :
    settling retries (.response r :: posts) = some (r, retries, posts) := by
  cases retries with
  | zero => rfl
  | succ left =>
      have hnot : r.isRetried = false := by
        cases hretried : r.isRetried with
        | false => rfl
        | true => exact absurd (h hretried) (Nat.succ_ne_zero left)
      simp [settling, hnot]

theorem withinHttp_iff {retries left : ℕ} {posts rest : List Post} {r : Response}
    (h : settling retries posts = some (r, left, rest)) :
    WithinHttp retries posts ↔ r.status < 600 := by
  constructor
  · exact fun hall ↦ hall r left rest h
  · intro hlt r' left' rest' h'
    cases h.symm.trans h'
    exact hlt

theorem answerable_iff {retries left : ℕ} {patch : Patch} {posts rest : List Post} {r : Response}
    (h : settling retries posts = some (r, left, rest)) :
    Answerable retries patch posts ↔ r.status < 600 ∧
      (r.status = 405 → patch.isTransient = false ∧
        (unarchiveThread patch = some true → WithinHttp left rest)) := by
  constructor
  · exact fun hall ↦ hall r left rest h
  · intro hlt r' left' rest' h'
    cases h.symm.trans h'
    exact hlt

theorem isRetried_of_ok {r : Response} (h : ok r.status = true) : r.isRetried = false := by
  have hlt : r.status < 400 := of_decide_eq_true h
  have hserver : serverError r.status = false := by
    simp only [serverError, Bool.and_eq_false_iff, decide_eq_false_iff_not]
    omega
  have h429 : (r.status == 429) = false := by
    rw [beq_eq_false_iff_ne]
    omega
  simp [Response.isRetried, hserver, h429]

/-- A rejection that is not retried. -/
theorem definitive_permanent_iff {r : Response} (unarchiving : Option Patch)
    (hok : ok r.status = false) (h429 : r.status ≠ 429) (hserver : serverError r.status = false) :
    Definitive (.permanent r.status unarchiving) ↔
      r.status < 600 ∧ ∀ patch ∈ unarchiving, patch.isTransient = false := by
  have hge : 400 ≤ r.status := not_lt.mp (of_decide_eq_false hok)
  have hrange : r.status < 500 ∨ 600 ≤ r.status := by
    simp only [serverError, Bool.and_eq_false_iff, decide_eq_false_iff_not] at hserver
    omega
  constructor
  · intro h
    obtain ⟨-, hlt, -, hpatch⟩ := h r.status unarchiving rfl
    exact ⟨by omega, hpatch⟩
  · rintro ⟨hlt, hpatch⟩ _ _ ⟨⟩
    exact ⟨hge, by omega, h429, hpatch⟩

def Round.result (maxRetries : ℕ) (patch : Patch) (posts : List Post) : Round → Result
  | .stop r => r
  | .again s => (loop maxRetries patch s posts).result

theorem result_cons (maxRetries : ℕ) (patch : Patch) (s : Sending) (post : Post)
    (posts : List Post) : (loop maxRetries patch s (post :: posts)).result =
      (round maxRetries patch s post).result maxRetries patch posts := by
  rw [loop]
  cases round maxRetries patch s post with
  | stop r => rfl
  | again s' => rfl

/-- A response that is not ok and no reason to unarchive the thread: either it is retried, or
it settles the POSTs and only its status matters. -/
theorem definitive_retryOrRaise_iff {maxRetries : ℕ} {patch : Patch} {s : Sending} {r : Response}
    {posts : List Post} {P : ℕ → List Post → Prop} (hok : ok r.status = false)
    (hretried : ∀ left, r.isRetried = true → (P (left + 1) (.response r :: posts) ↔ P left posts))
    (hsettled : (r.isRetried = true → maxRetries - s.attempt = 0) →
      (P (maxRetries - s.attempt) (.response r :: posts) ↔ r.status < 600))
    (hnext : Definitive (loop maxRetries patch { s with attempt := s.attempt + 1 } posts).result ↔
      P (maxRetries - (s.attempt + 1)) posts) :
    Definitive ((retryOrRaise maxRetries s r none).result maxRetries patch posts) ↔
      P (maxRetries - s.attempt) (.response r :: posts) := by
  have hcases := retryOrRaise_cases maxRetries s r none
  generalize retryOrRaise maxRetries s r none = result at hcases
  cases hcases with
  | retries hr hlt =>
      have hleft : maxRetries - s.attempt = maxRetries - (s.attempt + 1) + 1 := by omega
      rw [hleft, hretried _ hr]
      exact hnext
  | fails e hstatus hne hlast =>
      rw [hsettled fun h ↦ by have := hlast h; omega]
      exact iff_of_true (definitive_failed e) hstatus
  | raises hr h429 hserver =>
      rw [hsettled fun h ↦ absurd (hr.symm.trans h) Bool.false_ne_true]
      have hiff := definitive_permanent_iff none hok h429 hserver
      simpa [Round.result] using hiff

/-- Once the thread was unarchived only the status matters. -/
theorem definitive_iff_withinHttp (maxRetries : ℕ) (patch : Patch) {s : Sending}
    (hunarchived : s.unarchived = true) (posts : List Post) :
    Definitive (loop maxRetries patch s posts).result ↔
      WithinHttp (maxRetries - s.attempt) posts := by
  induction posts generalizing s with
  | nil => exact iff_of_true definitive_waiting (by simp [WithinHttp])
  | cons post posts ih =>
      rw [result_cons]
      cases post with
      | refused => exact iff_of_true (definitive_failed _) (by simp [WithinHttp])
      | networkError => exact iff_of_true (definitive_failed _) (by simp [WithinHttp])
      | response r =>
          cases hok : ok r.status with
          | true =>
              have hnot := isRetried_of_ok hok
              rw [withinHttp_iff (settling_settled posts fun h ↦ absurd (hnot.symm.trans h)
                Bool.false_ne_true)]
              have hlt : r.status < 400 := of_decide_eq_true hok
              simp only [round, hok, if_true]
              exact iff_of_true (definitive_answered r.id) (by omega)
          | false =>
              have hround : round maxRetries patch s (.response r) =
                  retryOrRaise maxRetries s r none := by
                simp [round, hok, hunarchived]
              rw [hround]
              refine definitive_retryOrRaise_iff hok (fun left hr ↦ ?_) (fun h ↦ ?_)
                (ih (s := { s with attempt := s.attempt + 1 }) hunarchived)
              · simp only [WithinHttp, settling_retried posts hr]
              · exact withinHttp_iff (settling_settled posts h)

theorem isTransient_of_unarchived {patch : Patch} (h : unarchiveThread patch = some true) :
    patch.isTransient = false := by
  cases patch with
  | refused => rfl
  | networkError => cases h
  | response status =>
      have hlt : status < 400 := of_decide_eq_true (Option.some.inj h)
      simp only [Patch.isTransient, serverError, Bool.or_eq_false_iff, beq_eq_false_iff_ne,
        Bool.and_eq_false_iff, decide_eq_false_iff_not]
      omega

/-- The PATCH decides what becomes of the first 405. -/
theorem round_405 (maxRetries : ℕ) {patch : Patch} {s : Sending} {r : Response}
    (h405 : r.status = 405) (harchived : s.unarchived = false) :
    round maxRetries patch s (.response r) = match unarchiveThread patch with
      | none => .stop (.failed .executionDenied)
      | some true => .again { s with unarchived := true }
      | some false => .stop (.permanent 405 (some patch)) := by
  simp only [round, h405, harchived, and_self, if_true]
  cases unarchiveThread patch with
  | none => simp [ok]
  | some unarchived => cases unarchived <;> simp [ok, retryOrRaise, h405, serverError]

theorem definitive_405_iff (maxRetries : ℕ) {patch : Patch} {s : Sending} {r : Response}
    (h405 : r.status = 405) (harchived : s.unarchived = false) (posts : List Post) :
    Definitive ((round maxRetries patch s (.response r)).result maxRetries patch posts) ↔
      patch.isTransient = false ∧ (unarchiveThread patch = some true →
        WithinHttp (maxRetries - s.attempt) posts) := by
  rw [round_405 maxRetries h405 harchived]
  cases hpatch : unarchiveThread patch with
  | none =>
      have htransient : patch.isTransient = false := by
        cases patch with
        | refused => rfl
        | networkError => cases hpatch
        | response status => cases hpatch
      exact iff_of_true (definitive_failed _) ⟨htransient, fun h ↦ nomatch h⟩
  | some unarchived =>
      cases unarchived with
      | true =>
          have hnext := definitive_iff_withinHttp maxRetries patch
            (s := { s with unarchived := true }) rfl posts
          simpa [Round.result, isTransient_of_unarchived hpatch] using hnext
      | false =>
          have hiff := definitive_permanent_iff (r := ⟨405, none, false⟩) (some patch)
            rfl (by decide) rfl
          simpa [Round.result] using hiff

theorem definitive_iff_answerable (maxRetries : ℕ) (patch : Patch) {s : Sending}
    (harchived : s.unarchived = false) (posts : List Post) :
    Definitive (loop maxRetries patch s posts).result ↔
      Answerable (maxRetries - s.attempt) patch posts := by
  induction posts generalizing s with
  | nil => exact iff_of_true definitive_waiting (by simp [Answerable])
  | cons post posts ih =>
      rw [result_cons]
      cases post with
      | refused => exact iff_of_true (definitive_failed _) (by simp [Answerable])
      | networkError => exact iff_of_true (definitive_failed _) (by simp [Answerable])
      | response r =>
          by_cases h405 : r.status = 405
          · have hnot : r.isRetried = false := by simp [Response.isRetried, h405, serverError]
            rw [definitive_405_iff maxRetries h405 harchived posts,
              answerable_iff (settling_settled posts fun h ↦ absurd (hnot.symm.trans h)
                Bool.false_ne_true)]
            simp [h405]
          have hpassing : ∀ {left rest}, settling (maxRetries - s.attempt) (.response r :: posts) =
              some (r, left, rest) → (Answerable (maxRetries - s.attempt) patch
                (.response r :: posts) ↔ r.status < 600) := by
            intro left rest hsettled
            rw [answerable_iff hsettled]
            exact and_iff_left fun h ↦ absurd h h405
          cases hok : ok r.status with
          | true =>
              have hnot := isRetried_of_ok hok
              rw [hpassing (settling_settled posts fun h ↦ absurd (hnot.symm.trans h)
                Bool.false_ne_true)]
              have hlt : r.status < 400 := of_decide_eq_true hok
              simp only [round, hok, if_true]
              exact iff_of_true (definitive_answered r.id) (by omega)
          | false =>
              have hround : round maxRetries patch s (.response r) =
                  retryOrRaise maxRetries s r none := by
                simp [round, hok, h405]
              rw [hround]
              refine definitive_retryOrRaise_iff (P := fun left posts ↦ Answerable left patch posts)
                hok (fun left hr ↦ ?_) (fun h ↦ hpassing (settling_settled posts h))
                (ih (s := { s with attempt := s.attempt + 1 }) harchived)
              simp only [Answerable, settling_retried posts hr]

/-- For every sequence of answers: at most two POSTs more than the retries, and a reply is
given up for a final rejection if and only if the answers are of that kind. -/
theorem send_message_definitive_iff (maxRetries : ℕ) (patch : Patch) (posts : List Post) :
    (sendMessage maxRetries patch posts).posts ≤ maxRetries + 2 ∧
    (Definitive (sendMessage maxRetries patch posts).result ↔
      Answerable maxRetries patch posts) :=
  ⟨posts_le ⟨0, false⟩ posts, definitive_iff_answerable maxRetries patch rfl posts⟩

/-- The thread is archived, and the PATCH gets a 503. -/
theorem reply_lost_by_unavailable_unarchive :
    ¬ Definitive (sendMessage 3 (.response 503) [.response ⟨405, none, false⟩]).result := by
  intro h
  obtain ⟨-, -, -, htransient⟩ := h 405 (some (.response 503)) (by decide)
  exact absurd (htransient _ rfl) (by decide)

end DiscordSend

end Discode
