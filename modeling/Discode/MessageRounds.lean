import Discode.MessageChunks

/-!
# The rounds of `build_message`

The loop of `build_message` with what it has taken from the reply so far: every round makes one
chunk, and the rounds together take the reply apart.
-/

set_option autoImplicit false

namespace Discode

/-- The loop before a round: `sent` is in the chunks made so far, and `pre` is the fence line put
in front of the rest. -/
structure Round where
  reopened : ℕ
  sent : PyStr
  pre : PyStr
  rest : PyStr
deriving DecidableEq

namespace Round

/-- The loop before the first round. -/
def start (content : PyStr) : Round := ⟨0, [], [], content⟩

variable (u : WordChars) (s : Round)

def content : PyStr := s.pre ++ s.rest

/-- What the round takes from the rest. -/
def body : PyStr :=
  if s.content.length ≤ maxDiscordMessageLen then s.rest
  else s.rest.take (splitAt u s.reopened s.content - s.pre.length)

def left : PyStr := s.rest.drop (s.body u).length

/-- How long a chunk may get before a line that closes its block. -/
def room : ℕ :=
  if (openFence u (s.content.take (splitPoint s.content maxDiscordMessageLen s.reopened))).isSome
  then maxDiscordMessageLen - closeFence.length else maxDiscordMessageLen

/-- What the round could take of the rest. -/
def window : PyStr :=
  if s.content.length ≤ maxDiscordMessageLen then s.rest
  else s.rest.take (s.room u - s.pre.length)

def chunk : PyStr :=
  if s.content.length ≤ maxDiscordMessageLen then s.content else (cutChunk u s.reopened s.content).1

/-- The loop before the next round. -/
def next : Round :=
  match openFence u (s.pre ++ s.body u) with
  | none => ⟨0, s.sent ++ s.body u, [], s.left u⟩
  | some fence => ⟨fence.length, s.sent ++ s.body u, reopening fence (s.left u), s.left u⟩

variable {u s}

theorem mem_window {c : CodePoint} (hc : c ∈ s.window u) : c ∈ s.rest := by
  unfold window at hc
  split at hc
  · exact hc
  · exact List.mem_of_mem_take hc

theorem window_ne_nil (hpre : s.pre = []) (hlong : maxDiscordMessageLen < s.rest.length) :
    s.window u ≠ [] := by
  have hroom : 0 < s.room u := by
    unfold room
    split <;> decide
  have hcontent : ¬ s.content.length ≤ maxDiscordMessageLen := by
    rw [content, hpre]
    exact not_le.mpr hlong
  rw [window, if_neg hcontent, hpre]
  refine List.ne_nil_of_length_pos ?_
  rw [List.length_take]
  exact lt_min hroom (Nat.zero_lt_of_lt hlong)

end Round

/-- All rounds from one on; the first argument bounds their number. -/
def roundsFrom (u : WordChars) : ℕ → Round → List Round
  | 0, s => [s]
  | n + 1, s =>
      if s.content.length ≤ maxDiscordMessageLen then [s] else s :: roundsFrom u n (s.next u)

/-- The rounds that make the chunks of a reply; an empty one has none. -/
def rounds (u : WordChars) (content : PyStr) : List Round :=
  if content = [] then [] else roundsFrom u content.length (.start content)

/-! ## Where a round cuts -/

/-- There is no line break behind the one that is found. -/
theorem rfindNewline_last {content : PyStr} {limit i : ℕ} (h : rfindNewline content limit = some i) :
    newline ∉ (content.take limit).drop (i + 1) := by
  obtain ⟨j, hj, rfl⟩ := Option.map_eq_some_iff.mp h
  obtain ⟨hlt, -, hnone⟩ := List.findIdx?_eq_some_iff_getElem.mp hj
  rw [List.length_reverse] at hlt
  have hdrop : (content.take limit).drop ((content.take limit).length - 1 - j + 1) =
      ((content.take limit).reverse.take j).reverse := by
    rw [List.take_reverse, List.reverse_reverse]
    congr 1
    omega
  rw [hdrop, List.mem_reverse]
  intro hmem
  obtain ⟨k, hk, hget⟩ := List.mem_take_iff_getElem.mp hmem
  have hmiss := hnone k (by omega)
  rw [hget] at hmiss
  exact hmiss rfl

theorem rfindNewline_none {content : PyStr} {limit : ℕ} (h : rfindNewline content limit = none) :
    newline ∉ content.take limit := by
  intro hmem
  have hfind := List.findIdx?_eq_none_iff.mp (Option.map_eq_none_iff.mp h) newline
    (List.mem_reverse.mpr hmem)
  cases hfind

/-- The split is at the last line break of the window, or there is none behind the floor. -/
theorem splitPoint_cases (content : PyStr) (limit floor : ℕ) :
    (∃ t, content.take limit = content.take (splitPoint content limit floor) ++ newline :: t ∧
      newline ∉ t) ∨
      splitPoint content limit floor = limit ∧ newline ∉ (content.take limit).drop (floor + 1) := by
  unfold splitPoint
  split
  · rename_i i hi
    obtain ⟨hlt, hnewline⟩ := rfindNewline_spec hi
    have hlast := rfindNewline_last hi
    split
    · refine .inl ⟨(content.take limit).drop (i + 1), ?_, hlast⟩
      have hget : (content.take limit)[i]? = some newline := by
        rw [List.getElem?_take_of_lt hlt, hnewline]
      obtain ⟨hbound, hget⟩ := List.getElem?_eq_some_iff.mp hget
      have htake : content.take i = (content.take limit).take i := by
        rw [List.take_take, Nat.min_eq_left hlt.le]
      rw [htake, ← hget, List.getElem_cons_drop, List.take_append_drop]
    · rename_i hfloor
      refine .inr ⟨rfl, fun hmem ↦ hlast ?_⟩
      exact (List.drop_sublist_drop_left _ (by omega)).subset hmem
  · rename_i hnone
    exact .inr ⟨rfl, fun hmem ↦ rfindNewline_none hnone (List.mem_of_mem_drop hmem)⟩

/-! ## One round -/

namespace Round

variable {u : WordChars} {s : Round}

/-- Something is left, behind a fence line that the loop has put there. -/
structure Ok (s : Round) : Prop where
  opens : Opens s.reopened s.pre s.rest
  continues : s.rest ≠ []

theorem body_of_short (h : s.content.length ≤ maxDiscordMessageLen) : s.body u = s.rest := if_pos h

theorem chunk_of_short (h : s.content.length ≤ maxDiscordMessageLen) :
    s.chunk u = s.pre ++ s.body u := by
  rw [chunk, if_pos h, body_of_short h]
  rfl

/-- A round that does not take all of the rest. -/
theorem Ok.cut (h : s.Ok) (hlong : maxDiscordMessageLen < s.content.length) :
    s.rest = s.body u ++ s.left u ∧ Cut u s.reopened s.pre (s.body u) (s.left u) := by
  obtain ⟨body, rest, hrest, hcut⟩ := h.opens.exists_cut (u := u) hlong
  have hsplit : splitAt u s.reopened s.content = (s.pre ++ body).length := by
    have hlen := congrArg List.length hcut.head
    have hne : rest.length ≠ 0 := fun hzero ↦ hcut.continues (List.length_eq_zero_iff.mp hzero)
    rw [List.length_take, ← hrest] at hlen
    have htotal : (s.pre ++ s.rest).length = (s.pre ++ body).length + rest.length := by
      rw [hrest, ← List.append_assoc, List.length_append]
    change splitAt u s.reopened (s.pre ++ s.rest) = _
    omega
  have hbody : s.body u = body := by
    rw [Round.body, if_neg (not_le.mpr hlong), hsplit, hrest, List.length_append,
      Nat.add_sub_cancel_left, List.take_left]
  have hleft : s.left u = rest := by
    rw [left, hbody, hrest, List.drop_left]
  rw [hbody, hleft]
  exact ⟨hrest, hcut⟩

theorem splitAt_eq (u : WordChars) (s : Round) :
    splitAt u s.reopened s.content = splitPoint s.content (s.room u) s.reopened := by
  unfold splitAt room
  dsimp only
  split <;> rfl

theorem Ok.reopened_le (h : s.Ok) : s.reopened ≤ s.pre.length := by
  obtain ⟨hopens, -⟩ := h
  generalize s.reopened = n, s.pre = pre, s.rest = rest at hopens
  cases hopens with
  | fresh => exact Nat.zero_le _
  | again rest hfence =>
      rw [reopening, List.length_append]
      exact Nat.le_add_right _ _

/-- The body ends before the last line break of the window, or at the end of the window. -/
theorem Ok.window_cases (h : s.Ok) (hlong : maxDiscordMessageLen < s.content.length) :
    (∃ t, s.window u = s.body u ++ newline :: t ∧ newline ∉ t) ∨
      s.body u = s.window u ∧ newline ∉ (s.window u).tail := by
  have hroom : 24 < s.room u := by
    unfold room
    split <;> decide
  have hbody : s.body u =
      s.rest.take (splitPoint s.content (s.room u) s.reopened - s.pre.length) := by
    rw [body, if_neg (not_le.mpr hlong), splitAt_eq]
  have hwindow : s.window u = s.rest.take (s.room u - s.pre.length) := if_neg (not_le.mpr hlong)
  have hafter : (s.content.take (s.room u)).drop s.pre.length =
      s.rest.take (s.room u - s.pre.length) := by
    rw [content, List.drop_take, List.drop_left]
  obtain ⟨hlt, hle⟩ := h.opens.lt_splitPoint (s.room u) hroom
  change s.pre.length < splitPoint s.content (s.room u) s.reopened at hlt
  change splitPoint s.content (s.room u) s.reopened ≤ s.room u at hle
  rw [hbody, hwindow]
  rcases splitPoint_cases s.content (s.room u) s.reopened with ⟨t, htake, ht⟩ | ⟨hlimit, hnone⟩
  · refine .inl ⟨t, ?_, ht⟩
    have hlen : s.pre.length ≤
        (s.content.take (splitPoint s.content (s.room u) s.reopened)).length := by
      have hroom_le : s.room u ≤ maxDiscordMessageLen := by
        unfold room
        split <;> decide
      rw [List.length_take_of_le (by omega)]
      exact hlt.le
    rw [← hafter, htake, List.drop_append_of_le_length hlen, content, List.drop_take,
      List.drop_left]
  · refine .inr ⟨by rw [hlimit], fun hmem ↦ hnone ?_⟩
    have hfloor := h.reopened_le
    rw [← hafter, List.tail_drop] at hmem
    exact (List.drop_sublist_drop_left _ (Nat.succ_le_succ hfloor)).subset hmem

theorem Ok.next (h : s.Ok) (hlong : maxDiscordMessageLen < s.content.length) :
    (s.next u).Ok ∧ (s.next u).rest.length < s.rest.length := by
  obtain ⟨hrest, hcut⟩ := h.cut (u := u) hlong
  have hshort : (s.left u).length < s.rest.length := by
    have hpos := List.length_pos_iff.mpr hcut.progress
    rw [hrest, List.length_append]
    omega
  unfold Round.next
  cases hfence : openFence u (s.pre ++ s.body u) with
  | none => exact ⟨⟨.fresh _, hcut.continues⟩, hshort⟩
  | some fence => exact ⟨⟨.again _ (openFence_length hfence), hcut.continues⟩, hshort⟩

/-- A round takes something from the front of the rest. -/
theorem Ok.rest_eq (h : s.Ok) (u : WordChars) : s.rest = s.body u ++ s.left u ∧ s.body u ≠ [] := by
  by_cases hshort : s.content.length ≤ maxDiscordMessageLen
  · rw [left, body_of_short hshort, List.drop_length, List.append_nil]
    exact ⟨rfl, h.continues⟩
  · obtain ⟨hrest, hcut⟩ := h.cut (u := u) (not_le.mp hshort)
    exact ⟨hrest, hcut.progress⟩

/-- The round as `cutChunk` has it. -/
theorem Ok.cutChunk (h : s.Ok) (hlong : maxDiscordMessageLen < s.content.length) :
    cutChunk u s.reopened s.content = (s.chunk u, (s.next u).reopened, (s.next u).content) := by
  obtain ⟨hrest, hcut⟩ := h.cut (u := u) hlong
  have hchunk : s.chunk u = (Discode.cutChunk u s.reopened s.content).1 :=
    if_neg (not_le.mpr hlong)
  have hcontent : s.content = s.pre ++ (s.body u ++ s.left u) := by rw [← hrest]; rfl
  rw [hchunk, hcontent]
  unfold Round.next
  cases hfence : openFence u (s.pre ++ s.body u) with
  | none =>
      rw [hcut.cutChunk_closed hfence]
      rfl
  | some fence =>
      rw [hcut.cutChunk_open hfence]
      rfl

/-- The chunk of a round is the reopened fence line, the body and perhaps a line that closes the
block. -/
theorem Ok.chunk_eq (h : s.Ok) : s.chunk u = s.pre ++ s.body u ∨
    (openFence u (s.pre ++ s.body u)).isSome ∧ s.chunk u = s.pre ++ s.body u ++ closeFence := by
  by_cases hshort : s.content.length ≤ maxDiscordMessageLen
  · exact .inl (chunk_of_short hshort)
  · obtain ⟨hrest, hcut⟩ := h.cut (u := u) (not_le.mp hshort)
    have hcontent : s.content = s.pre ++ (s.body u ++ s.left u) := by rw [← hrest]; rfl
    rw [chunk, if_neg hshort, hcontent]
    cases hfence : openFence u (s.pre ++ s.body u) with
    | none => exact .inl (by rw [hcut.cutChunk_closed hfence])
    | some fence => exact .inr ⟨rfl, by rw [hcut.cutChunk_open hfence]⟩

end Round

/-! ## All rounds -/

theorem roundsFrom_chunks (u : WordChars) (n : ℕ) : ∀ (s : Round) (m : ℕ), s.rest.length ≤ n →
    s.rest.length ≤ m → s.Ok →
    buildMessageLoop u m s.reopened s.content = (roundsFrom u n s).map (Round.chunk u) := by
  induction n with
  | zero =>
      intro s m hn _ hok
      exact absurd (List.eq_nil_of_length_eq_zero (Nat.le_zero.mp hn)) hok.continues
  | succ n ih =>
      intro s m hn hm hok
      have hne : s.content ≠ [] := List.append_ne_nil_of_right_ne_nil s.pre hok.continues
      have hpos := List.length_pos_iff.mpr hok.continues
      obtain ⟨m, rfl⟩ : ∃ k, m = k + 1 := ⟨m - 1, by omega⟩
      by_cases hshort : s.content.length ≤ maxDiscordMessageLen
      · rw [buildMessageLoop, if_pos hshort, if_neg hne, roundsFrom, if_pos hshort,
          List.map_singleton, Round.chunk, if_pos hshort]
      · obtain ⟨hnext, hlt⟩ := hok.next (u := u) (not_le.mp hshort)
        rw [buildMessageLoop_succ u m _ (not_le.mp hshort), hok.cutChunk (not_le.mp hshort),
          roundsFrom, if_neg hshort, List.map_cons, ih _ m (by omega) (by omega) hnext]

/-- The chunks of a reply are those of its rounds. -/
theorem buildMessage_eq_rounds (u : WordChars) (content : PyStr) :
    buildMessage u content = (rounds u content).map (Round.chunk u) := by
  by_cases hne : content = []
  · subst hne
    rfl
  · have hchunks := roundsFrom_chunks u content.length (.start content) (2 * content.length + 1)
      le_rfl (by change content.length ≤ _; omega) ⟨.fresh content, hne⟩
    rw [rounds, if_neg hne, ← hchunks]
    rfl

/-- What holds of the first round and of the one behind every cut holds of all rounds. -/
theorem roundsFrom_induction {u : WordChars} {P : Round → Prop} (n : ℕ) : ∀ s : Round,
    (∀ r ∈ roundsFrom u n s, r.Ok → P r → maxDiscordMessageLen < r.content.length →
      P (r.next u)) →
    s.Ok → P s → ∀ r ∈ roundsFrom u n s, r.Ok ∧ P r := by
  induction n with
  | zero =>
      intro s _ hok hs r hr
      rw [List.mem_singleton.mp hr]
      exact ⟨hok, hs⟩
  | succ n ih =>
      intro s hnext hok hs r hr
      rw [roundsFrom] at hnext hr
      split at hr
      · rw [List.mem_singleton.mp hr]
        exact ⟨hok, hs⟩
      · rename_i hshort
        rw [if_neg hshort] at hnext
        rcases List.mem_cons.mp hr with rfl | hr
        · exact ⟨hok, hs⟩
        · have hlong := not_le.mp hshort
          refine ih _ ?_ (hok.next hlong).1 (hnext s List.mem_cons_self hok hs hlong) r hr
          exact fun r' hr' ↦ hnext r' (List.mem_cons_of_mem s hr')

theorem rounds_induction {u : WordChars} {P : Round → Prop} {content : PyStr}
    (hstart : content ≠ [] → P (.start content))
    (hnext : ∀ s ∈ rounds u content, s.Ok → P s → maxDiscordMessageLen < s.content.length →
      P (s.next u))
    {r : Round} (hr : r ∈ rounds u content) : r.Ok ∧ P r := by
  by_cases hne : content = []
  · rw [rounds, if_pos hne] at hr
    cases hr
  · rw [rounds, if_neg hne] at hnext hr
    exact roundsFrom_induction _ _ hnext ⟨.fresh content, hne⟩ (hstart hne) r hr

theorem mem_roundsFrom_self (u : WordChars) (n : ℕ) (s : Round) : s ∈ roundsFrom u n s := by
  cases n with
  | zero => exact List.mem_singleton_self s
  | succ n =>
      rw [roundsFrom]
      split
      · exact List.mem_singleton_self s
      · exact List.mem_cons_self

theorem mem_roundsFrom_next {u : WordChars} {r : Round}
    (hlong : maxDiscordMessageLen < r.content.length) (n : ℕ) : ∀ s : Round, s.rest.length ≤ n →
    s.Ok → r ∈ roundsFrom u n s → r.next u ∈ roundsFrom u n s := by
  induction n with
  | zero =>
      intro s hn hok _
      exact absurd (List.eq_nil_of_length_eq_zero (Nat.le_zero.mp hn)) hok.continues
  | succ n ih =>
      intro s hn hok hr
      rw [roundsFrom] at hr ⊢
      split at hr
      · rename_i hshort
        rw [List.mem_singleton.mp hr] at hlong
        exact absurd hshort (not_le.mpr hlong)
      · rename_i hshort
        obtain ⟨hnext, hlt⟩ := hok.next (u := u) (not_le.mp hshort)
        rw [if_neg hshort]
        rcases List.mem_cons.mp hr with rfl | hr
        · exact List.mem_cons_of_mem _ (mem_roundsFrom_self u n _)
        · exact List.mem_cons_of_mem _ (ih _ (by omega) hnext hr)

/-- After a round that does not take all of the rest comes another. -/
theorem mem_rounds_next {u : WordChars} {content : PyStr} {s : Round} (hs : s ∈ rounds u content)
    (hlong : maxDiscordMessageLen < s.content.length) : s.next u ∈ rounds u content := by
  by_cases hne : content = []
  · rw [rounds, if_pos hne] at hs
    cases hs
  · rw [rounds, if_neg hne] at hs ⊢
    exact mem_roundsFrom_next hlong _ _ le_rfl ⟨.fresh content, hne⟩ hs

theorem start_mem_rounds (u : WordChars) {content : PyStr} (hne : content ≠ []) :
    .start content ∈ rounds u content := by
  rw [rounds, if_neg hne]
  exact mem_roundsFrom_self u _ _

/-- The second round, when the first one ends outside a code block. -/
theorem mem_rounds_second {u : WordChars} (body left : PyStr)
    (hlong : maxDiscordMessageLen < (body ++ left).length)
    (hsplit : splitAt u 0 (body ++ left) = body.length) (hclosed : openFence u body = none) :
    ⟨0, body, [], left⟩ ∈ rounds u (body ++ left) := by
  have hbody : (Round.start (body ++ left)).body u = body := by
    rw [Round.body, if_neg (not_le.mpr (show _ < (Round.start (body ++ left)).content.length
      from hlong))]
    change (body ++ left).take (splitAt u 0 (body ++ left) - 0) = body
    rw [hsplit, Nat.sub_zero, List.take_left]
  have hleft : (Round.start (body ++ left)).left u = left := by
    rw [Round.left, hbody]
    exact List.drop_left
  have hnext : (Round.start (body ++ left)).next u = ⟨0, body, [], left⟩ := by
    unfold Round.next
    rw [hbody, hleft]
    split
    · rfl
    · rename_i hfence
      cases hclosed.symm.trans hfence
  have hne : body ++ left ≠ [] := by
    intro hnil
    rw [hnil] at hlong
    cases hlong
  rw [← hnext]
  exact mem_rounds_next (start_mem_rounds u hne) hlong

theorem Round.next_sent (u : WordChars) (s : Round) : (s.next u).sent = s.sent ++ s.body u := by
  unfold next
  split <;> rfl

theorem Round.next_rest (u : WordChars) (s : Round) : (s.next u).rest = s.left u := by
  unfold next
  split <;> rfl

theorem roundsFrom_bodies (u : WordChars) (n : ℕ) : ∀ s : Round, s.rest.length ≤ n → s.Ok →
    (roundsFrom u n s).flatMap (Round.body u) = s.rest := by
  induction n with
  | zero =>
      intro s hn hok
      exact absurd (List.eq_nil_of_length_eq_zero (Nat.le_zero.mp hn)) hok.continues
  | succ n ih =>
      intro s hn hok
      rw [roundsFrom]
      split
      · rename_i hshort
        rw [List.flatMap_singleton, Round.body_of_short hshort]
      · rename_i hshort
        obtain ⟨hnext, hlt⟩ := hok.next (u := u) (not_le.mp hshort)
        rw [List.flatMap_cons, ih _ (by omega) hnext, Round.next_rest]
        exact (hok.cut (not_le.mp hshort)).1.symm

/-- The bodies of the rounds are the reply, cut. -/
theorem rounds_bodies (u : WordChars) (content : PyStr) :
    (rounds u content).flatMap (Round.body u) = content := by
  by_cases hne : content = []
  · rw [rounds, if_pos hne, hne, List.flatMap_nil]
  · rw [rounds, if_neg hne]
    exact roundsFrom_bodies u _ _ le_rfl ⟨.fresh content, hne⟩

/-- What is sent and what is left are the reply. -/
theorem rounds_sent {u : WordChars} {content : PyStr} {s : Round} (hs : s ∈ rounds u content) :
    s.Ok ∧ s.sent ++ s.rest = content := by
  refine rounds_induction (P := fun s ↦ s.sent ++ s.rest = content) (fun _ ↦ rfl) ?_ hs
  intro s _ hok hsent _
  rw [Round.next_sent, Round.next_rest, List.append_assoc, ← (hok.rest_eq u).1, hsent]

end Discode
