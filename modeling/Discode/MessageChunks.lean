import Discode.Library.RegexScan
import Discode.MessageBuilder

/-!
# The chunks of a reply

Every round of `build_message` takes at least one new character from the rest of the reply,
although it may put a fence in front of what remains.
-/

set_option autoImplicit false

namespace Discode

open Regex

/-! ## Fences -/

theorem fenceLine_stopsAt (u : WordChars) : (fenceLine u).StopsAt newline := by
  have hword : u.isWord newline = false := by
    rw [u.ascii newline (by decide)]
    decide
  refine ⟨⟨fun _ _ _ ↦ rfl, ?_, ?_⟩, ?_⟩
  · change oneOfChars " \t" newline = false
    decide
  · exact ⟨rfl, rfl, rfl⟩
  · change (u.isWord newline || oneOfChars "+#.-" newline) = false
    rw [hword]
    decide

/-- What a piece of the text does to the open fence. -/
def fenceStep (opener : Option PyStr) : Piece CodePoint → Option PyStr
  | .copy _ => opener
  | .hit _ tag => if opener.isSome then none else some (pyStr "```" ++ tag.take 20)

theorem openFence_eq_foldl (u : WordChars) (text : PyStr) :
    openFence u text = ((fenceLine u).pieces text).foldl fenceStep none := rfl

theorem closeFence_scan (u : WordChars) (before : List CodePoint) :
    (fenceLine u).scan 3 ⟨newline :: before, pyStr "```"⟩ = [.hit (pyStr "```") []] := rfl

/-- The line that `build_message` appends closes an open block. -/
theorem openFence_closed (u : WordChars) {text : PyStr} (h : (openFence u text).isSome) :
    openFence u (text ++ closeFence) = none := by
  have hpieces := Rule.pieces_separated (fenceLine_stopsAt u) text (pyStr "```")
  have htail : (fenceLine u).scan (pyStr "```").length ⟨newline :: text.reverse, pyStr "```"⟩ =
      [.hit (pyStr "```") []] := closeFence_scan u text.reverse
  rw [htail] at hpieces
  rw [openFence_eq_foldl] at h ⊢
  rw [show text ++ closeFence = text ++ newline :: pyStr "```" from rfl, hpieces,
    List.foldl_append]
  change fenceStep (((fenceLine u).pieces text).foldl fenceStep none) (.hit (pyStr "```") []) = none
  exact if_pos h

theorem foldl_fenceStep_length (ps : List (Piece CodePoint)) :
    ∀ opener : Option PyStr, (∀ f, opener = some f → f.length ≤ 23) →
      ∀ f, ps.foldl fenceStep opener = some f → f.length ≤ 23 := by
  induction ps with
  | nil => exact fun _ h ↦ h
  | cons p ps ih =>
      intro opener h
      apply ih
      intro f hf
      cases p with
      | copy a => exact h f hf
      | hit keep tag =>
          simp only [fenceStep] at hf
          split at hf <;> cases hf
          rw [List.length_append, List.length_take]
          have hticks : (pyStr "```").length = 3 := by decide
          omega

theorem openFence_length {u : WordChars} {text f : PyStr} (h : openFence u text = some f) :
    f.length ≤ 23 :=
  foldl_fenceStep_length _ none (fun _ hf ↦ nomatch hf) f h

/-! ## The loop -/

/-- `split_at` of one round. -/
def splitAt (u : WordChars) (reopened : ℕ) (content : PyStr) : ℕ :=
  let first := splitPoint content maxDiscordMessageLen reopened
  if (openFence u (content.take first)).isSome then
    splitPoint content (maxDiscordMessageLen - closeFence.length) reopened
  else first

/-- The fence line that goes in front of the rest of a cut block. -/
def reopening (fence rest : PyStr) : PyStr :=
  fence ++ if rest.head? = some newline then [] else [newline]

/-- One round: the chunk, and the next `reopened` and `content`. -/
def cutChunk (u : WordChars) (reopened : ℕ) (content : PyStr) : PyStr × ℕ × PyStr :=
  let head := content.take (splitAt u reopened content)
  let rest := content.drop (splitAt u reopened content)
  match openFence u head with
  | none => (head, 0, rest)
  | some fence => (head ++ closeFence, fence.length, reopening fence rest ++ rest)

/-- The loop, entered with `reopened` and `content`, ends and returns the chunks. -/
inductive Loop (u : WordChars) : ℕ → PyStr → List PyStr → Prop where
  | done {reopened : ℕ} {content : PyStr} (h : content.length ≤ maxDiscordMessageLen) :
      Loop u reopened content (if content = [] then [] else [content])
  | cut {reopened : ℕ} {content : PyStr} {chunks : List PyStr}
      (h : maxDiscordMessageLen < content.length)
      (hrest : Loop u (cutChunk u reopened content).2.1 (cutChunk u reopened content).2.2 chunks) :
      Loop u reopened content ((cutChunk u reopened content).1 :: chunks)

theorem buildMessageLoop_succ (u : WordChars) (n reopened : ℕ) {content : PyStr}
    (h : maxDiscordMessageLen < content.length) :
    buildMessageLoop u (n + 1) reopened content = (cutChunk u reopened content).1 ::
      buildMessageLoop u n (cutChunk u reopened content).2.1 (cutChunk u reopened content).2.2 := by
  have hunfold : buildMessageLoop u (n + 1) reopened content =
      match openFence u (content.take (splitAt u reopened content)) with
      | none => content.take (splitAt u reopened content) ::
          buildMessageLoop u n 0 (content.drop (splitAt u reopened content))
      | some fence => (content.take (splitAt u reopened content) ++ closeFence) ::
          buildMessageLoop u n fence.length (reopening fence
            (content.drop (splitAt u reopened content)) ++
              content.drop (splitAt u reopened content)) := by
    rw [buildMessageLoop, if_neg (not_le.mpr h)]
    rfl
  rw [hunfold, cutChunk]
  cases openFence u (content.take (splitAt u reopened content)) <;> rfl

theorem Loop.eq_buildMessageLoop {u : WordChars} {reopened : ℕ} {content : PyStr}
    {chunks : List PyStr} (h : Loop u reopened content chunks) :
    ∀ n, chunks.length ≤ n → buildMessageLoop u n reopened content = chunks := by
  induction h with
  | done h =>
      intro n _
      cases n with
      | zero => rfl
      | succ n => rw [buildMessageLoop, if_pos h]
  | cut h hrest ih =>
      intro n hn
      cases n with
      | zero => cases hn
      | succ n => rw [buildMessageLoop_succ u n _ h, ih n (Nat.le_of_succ_le_succ hn)]

/-! ## One round -/

/-- `content` is the rest of the reply, with a fence line in front where a block was cut. -/
inductive Opens : ℕ → PyStr → PyStr → Prop where
  | fresh (rest : PyStr) : Opens 0 [] rest
  | again {fence : PyStr} (rest : PyStr) (h : fence.length ≤ 23) :
      Opens fence.length (reopening fence rest) rest

theorem rfindNewline_spec {content : PyStr} {limit i : ℕ} (h : rfindNewline content limit = some i) :
    i < limit ∧ content[i]? = some newline := by
  obtain ⟨j, hj, rfl⟩ := Option.map_eq_some_iff.mp h
  obtain ⟨hlt, hnewline, -⟩ := List.findIdx?_eq_some_iff_getElem.mp hj
  rw [List.length_reverse] at hlt
  rw [List.getElem_reverse, beq_iff_eq] at hnewline
  have hlen : (content.take limit).length ≤ limit := List.length_take_le limit content
  have hlimit : (content.take limit).length - 1 - j < limit := by omega
  refine ⟨hlimit, ?_⟩
  rw [← hnewline, ← List.getElem?_eq_getElem, List.getElem?_take_of_lt hlimit]

theorem Opens.length_le {reopened : ℕ} {pre rest : PyStr} (h : Opens reopened pre rest) :
    pre.length ≤ 24 := by
  cases h with
  | fresh => exact Nat.zero_le _
  | @again fence rest hfence =>
      rw [reopening, List.length_append]
      split
      · rw [List.length_nil]
        omega
      · rw [List.length_singleton]
        omega

/-- A cut lies behind the fence line, with something of the reply before it. -/
theorem Opens.lt_splitPoint {reopened : ℕ} {pre rest : PyStr} (h : Opens reopened pre rest)
    (limit : ℕ) (hlimit : 24 < limit) :
    pre.length < splitPoint (pre ++ rest) limit reopened ∧
      splitPoint (pre ++ rest) limit reopened ≤ limit := by
  have hpre := h.length_le
  unfold splitPoint
  split
  · rename_i i hi
    obtain ⟨hlt, hnewline⟩ := rfindNewline_spec hi
    split
    · rename_i hfloor
      refine ⟨?_, hlt.le⟩
      cases h with
      | fresh => exact hfloor
      | @again fence rest hfence =>
          unfold reopening at hnewline ⊢
          split at hnewline
          · rename_i hhead
            rw [if_pos hhead, List.append_nil]
            exact hfloor
          · rename_i hhead
            rw [if_neg hhead, List.length_append, List.length_singleton]
            refine Nat.lt_of_le_of_ne hfloor fun heq ↦ hhead ?_
            -- The rest would start with the line break.
            rw [List.getElem?_append_right (by simp; omega)] at hnewline
            rw [List.head?_eq_getElem?, ← hnewline]
            congr 1
            simp
            omega
    · exact ⟨by omega, le_rfl⟩
  · exact ⟨by omega, le_rfl⟩

theorem Opens.lt_splitAt {u : WordChars} {reopened : ℕ} {pre rest : PyStr}
    (h : Opens reopened pre rest) :
    pre.length < splitAt u reopened (pre ++ rest) ∧
      splitAt u reopened (pre ++ rest) ≤ maxDiscordMessageLen ∧
      ((openFence u ((pre ++ rest).take (splitAt u reopened (pre ++ rest)))).isSome →
        splitAt u reopened (pre ++ rest) + closeFence.length ≤ maxDiscordMessageLen) := by
  have hfirst := h.lt_splitPoint maxDiscordMessageLen (by decide)
  have hsecond := h.lt_splitPoint (maxDiscordMessageLen - closeFence.length) (by decide)
  have hclose : closeFence.length = 4 := by decide
  have hmax : maxDiscordMessageLen = 2000 := rfl
  unfold splitAt
  dsimp only
  split
  · exact ⟨hsecond.1, by omega, fun _ ↦ by omega⟩
  · rename_i hclosed
    exact ⟨hfirst.1, hfirst.2, fun hopen ↦ absurd hopen hclosed⟩

/-- How a chunk is put together. -/
structure Part where
  reopening : PyStr
  body : PyStr
  closing : PyStr

def Part.chunk (p : Part) : PyStr := p.reopening ++ p.body ++ p.closing

structure Part.Fits (p : Part) : Prop where
  body : p.body ≠ []
  closing : p.closing = [] ∨ p.closing = closeFence
  positive : 1 ≤ p.chunk.length
  bounded : p.chunk.length ≤ maxDiscordMessageLen

/-- The chunk `q` goes on where `p` ends. -/
structure Part.Precedes (u : WordChars) (p q : Part) : Prop where
  closed : openFence u p.chunk = none
  reopening : q.reopening ≠ [] → p.closing = closeFence ∧
    ∃ fence, openFence u (p.reopening ++ p.body) = some fence ∧
      q.reopening = Discode.reopening fence q.body

/-- What the loop makes of the rest of a reply. -/
structure Cuts (u : WordChars) (pre rest : PyStr) (parts : List Part) : Prop where
  fits : ∀ p ∈ parts, p.Fits
  lossless : parts.flatMap Part.body = rest
  linked : parts.IsChain (Part.Precedes u)
  first : ∀ p, parts.head? = some p → p.reopening = pre ∧ p.body.head? = rest.head?

/-- The last chunk. -/
theorem Cuts.single (u : WordChars) {pre rest : PyStr} (hne : rest ≠ [])
    (hlen : (pre ++ rest).length ≤ maxDiscordMessageLen) : Cuts u pre rest [⟨pre, rest, []⟩] := by
  have hchunk : Part.chunk ⟨pre, rest, []⟩ = pre ++ rest := List.append_nil _
  constructor
  · intro p hp
    rw [List.mem_singleton.mp hp]
    refine ⟨hne, .inl rfl, ?_, hchunk ▸ hlen⟩
    rw [hchunk, List.length_append]
    have hpos := List.length_pos_iff.mpr hne
    omega
  · exact List.flatMap_singleton ..
  · exact .singleton _
  · intro p hp
    cases hp
    exact ⟨rfl, rfl⟩

/-- One more chunk in front. -/
theorem Cuts.cons {u : WordChars} {pre body rest next : PyStr} {closing : PyStr}
    {parts : List Part} (h : Cuts u next rest parts) (hfits : Part.Fits ⟨pre, body, closing⟩)
    (hclosed : openFence u (pre ++ body ++ closing) = none)
    (hnext : next ≠ [] → closing = closeFence ∧ ∃ fence, openFence u (pre ++ body) = some fence ∧
      next = reopening fence rest) :
    Cuts u pre (body ++ rest) (⟨pre, body, closing⟩ :: parts) := by
  constructor
  · intro p hp
    rcases List.mem_cons.mp hp with rfl | hp
    · exact hfits
    · exact h.fits p hp
  · rw [List.flatMap_cons, h.lossless]
  · cases parts with
    | nil => exact .singleton _
    | cons q parts =>
        obtain ⟨hpre, hbody⟩ := h.first q rfl
        refine List.isChain_cons_cons.mpr ⟨⟨hclosed, fun hne ↦ ?_⟩, h.linked⟩
        obtain ⟨hclosing, fence, hfence, hnext⟩ := hnext (hpre ▸ hne)
        refine ⟨hclosing, fence, hfence, ?_⟩
        rw [hpre, hnext, reopening, reopening, hbody]
  · intro p hp
    cases hp
    refine ⟨rfl, ?_⟩
    rw [List.head?_append_of_ne_nil _ hfits.body]

/-! ## All rounds -/

/-- What a round takes from the rest, and what it leaves. -/
structure Cut (u : WordChars) (reopened : ℕ) (pre body rest : PyStr) : Prop where
  head : (pre ++ (body ++ rest)).take (splitAt u reopened (pre ++ (body ++ rest))) = pre ++ body
  tail : (pre ++ (body ++ rest)).drop (splitAt u reopened (pre ++ (body ++ rest))) = rest
  progress : body ≠ []
  continues : rest ≠ []
  bounded : (pre ++ body).length ≤ maxDiscordMessageLen
  room : (openFence u (pre ++ body)).isSome →
    (pre ++ body).length + closeFence.length ≤ maxDiscordMessageLen

theorem Opens.exists_cut {u : WordChars} {reopened : ℕ} {pre rest : PyStr}
    (h : Opens reopened pre rest) (hlong : maxDiscordMessageLen < (pre ++ rest).length) :
    ∃ body rest', rest = body ++ rest' ∧ Cut u reopened pre body rest' := by
  obtain ⟨hlt, hle, hroom⟩ := h.lt_splitAt (u := u)
  obtain ⟨k, hk⟩ : ∃ k, splitAt u reopened (pre ++ rest) = pre.length + k :=
    ⟨_, (Nat.add_sub_cancel' hlt.le).symm⟩
  rw [hk] at hlt hle hroom
  rw [List.length_append] at hlong
  have htake : (pre ++ rest).take (pre.length + k) = pre ++ rest.take k :=
    List.take_length_add_append k
  have hdrop : (pre ++ rest).drop (pre.length + k) = rest.drop k :=
    List.drop_length_add_append k
  have hlen : (pre ++ rest.take k).length = pre.length + k := by
    rw [List.length_append, List.length_take_of_le (by omega)]
  refine ⟨rest.take k, rest.drop k, (List.take_append_drop k rest).symm, ?_⟩
  constructor
  · rw [List.take_append_drop, hk, htake]
  · rw [List.take_append_drop, hk, hdrop]
  · apply List.ne_nil_of_length_pos
    rw [List.length_take]
    omega
  · apply List.ne_nil_of_length_pos
    rw [List.length_drop]
    omega
  · exact hlen ▸ hle
  · rw [hlen, ← htake]
    exact hroom

namespace Cut

variable {u : WordChars} {reopened : ℕ} {pre body rest : PyStr}

theorem fits (h : Cut u reopened pre body rest) {closing : PyStr}
    (hclosing : closing = [] ∨ closing = closeFence ∧ (openFence u (pre ++ body)).isSome) :
    Part.Fits ⟨pre, body, closing⟩ := by
  have hpos : 1 ≤ body.length := List.length_pos_iff.mpr h.progress
  have hbounded := h.bounded
  have hchunk : (Part.chunk ⟨pre, body, closing⟩).length = (pre ++ body).length + closing.length :=
    List.length_append
  rw [List.length_append] at hbounded hchunk
  refine ⟨h.progress, hclosing.imp_right And.left, by omega, ?_⟩
  rcases hclosing with rfl | ⟨rfl, hopen⟩
  · rw [hchunk, List.length_nil]
    omega
  · have hroom := h.room hopen
    rw [List.length_append] at hroom
    omega

/-- A round that closes no block. -/
theorem cutChunk_closed (h : Cut u reopened pre body rest)
    (hfence : openFence u (pre ++ body) = none) :
    cutChunk u reopened (pre ++ (body ++ rest)) = (pre ++ body, 0, rest) := by
  rw [cutChunk, h.head, h.tail, hfence]

/-- A round that closes a block. -/
theorem cutChunk_open (h : Cut u reopened pre body rest) {fence : PyStr}
    (hfence : openFence u (pre ++ body) = some fence) :
    cutChunk u reopened (pre ++ (body ++ rest)) =
      (pre ++ body ++ closeFence, fence.length, reopening fence rest ++ rest) := by
  rw [cutChunk, h.head, h.tail, hfence]

end Cut

/-- The induction is on the rest of the reply, which every round shortens. -/
theorem loop_cuts (u : WordChars) (n : ℕ) : ∀ reopened pre rest, rest.length ≤ n →
    Opens reopened pre rest → rest ≠ [] →
    ∃ parts, Loop u reopened (pre ++ rest) (parts.map Part.chunk) ∧ Cuts u pre rest parts := by
  induction n with
  | zero =>
      intro reopened pre rest hn _ hne
      exact absurd (List.eq_nil_of_length_eq_zero (Nat.le_zero.mp hn)) hne
  | succ n ih =>
      intro reopened pre rest hn hopens hne
      by_cases hlen : (pre ++ rest).length ≤ maxDiscordMessageLen
      · refine ⟨[⟨pre, rest, []⟩], ?_, .single u hne hlen⟩
        have hloop : Loop u reopened (pre ++ rest) _ := .done hlen
        rw [if_neg (List.append_ne_nil_of_right_ne_nil pre hne)] at hloop
        rwa [List.map_singleton, Part.chunk, List.append_nil]
      · have hlong : maxDiscordMessageLen < (pre ++ rest).length := not_le.mp hlen
        obtain ⟨body, rest', rfl, hcut⟩ := hopens.exists_cut (u := u) hlong
        have hshort : rest'.length ≤ n := by
          have hpos : 0 < body.length := List.length_pos_iff.mpr hcut.progress
          rw [List.length_append] at hn
          omega
        have hloop : ∀ {chunks}, Loop u (cutChunk u reopened (pre ++ (body ++ rest'))).2.1
            (cutChunk u reopened (pre ++ (body ++ rest'))).2.2 chunks →
            Loop u reopened (pre ++ (body ++ rest'))
              ((cutChunk u reopened (pre ++ (body ++ rest'))).1 :: chunks) := Loop.cut hlong
        cases hfence : openFence u (pre ++ body) with
        | none =>
            rw [hcut.cutChunk_closed hfence] at hloop
            obtain ⟨parts, hparts, hcuts⟩ := ih 0 [] rest' hshort (.fresh _) hcut.continues
            refine ⟨⟨pre, body, []⟩ :: parts, ?_, ?_⟩
            · rw [List.map_cons, Part.chunk, List.append_nil]
              exact hloop hparts
            · apply hcuts.cons (hcut.fits (.inl rfl))
              · rwa [List.append_nil]
              · exact fun hne' ↦ absurd rfl hne'
        | some fence =>
            rw [hcut.cutChunk_open hfence] at hloop
            have hopen : (openFence u (pre ++ body)).isSome := by rw [hfence]; rfl
            obtain ⟨parts, hparts, hcuts⟩ := ih fence.length (reopening fence rest') rest' hshort
              (.again rest' (openFence_length hfence)) hcut.continues
            refine ⟨⟨pre, body, closeFence⟩ :: parts, hloop hparts, ?_⟩
            apply hcuts.cons (hcut.fits (.inr ⟨rfl, hopen⟩))
            · exact openFence_closed u hopen
            · exact fun _ ↦ ⟨rfl, fence, hfence, rfl⟩

theorem Cuts.length_le {u : WordChars} {pre rest : PyStr} {parts : List Part}
    (h : Cuts u pre rest parts) : parts.length ≤ rest.length := by
  have hfits := h.fits
  rw [← h.lossless]
  clear h
  induction parts with
  | nil => exact Nat.zero_le _
  | cons p parts ih =>
      have hpos : 0 < p.body.length :=
        List.length_pos_iff.mpr (hfits p List.mem_cons_self).body
      have htail := ih fun q hq ↦ hfits q (List.mem_cons_of_mem p hq)
      rw [List.flatMap_cons, List.length_append, List.length_cons]
      omega

/-- The loop ends for every reply, and the chunks without the fence lines that were put
around them are the reply. -/
theorem build_message_splits (u : WordChars) (content : PyStr) :
    Loop u 0 content (buildMessage u content) ∧
      ∃ parts : List Part, buildMessage u content = parts.map Part.chunk ∧
        parts.flatMap Part.body = content ∧ (∀ p ∈ parts, p.Fits) ∧
        (∀ p, parts.head? = some p → p.reopening = []) ∧ parts.IsChain (Part.Precedes u) := by
  by_cases hne : content = []
  · subst hne
    refine ⟨?_, [], rfl, rfl, fun _ hp ↦ (nomatch hp), fun _ hp ↦ (nomatch hp), .nil⟩
    exact .done (Nat.zero_le _)
  · obtain ⟨parts, hloop, hcuts⟩ := loop_cuts u content.length 0 [] content le_rfl (.fresh _) hne
    rw [List.nil_append] at hloop
    have hfuel : (parts.map Part.chunk).length ≤ 2 * content.length + 1 := by
      have hlen := hcuts.length_le
      rw [List.length_map]
      omega
    have heq : buildMessage u content = parts.map Part.chunk :=
      hloop.eq_buildMessageLoop _ hfuel
    refine ⟨heq ▸ hloop, parts, heq, hcuts.lossless, hcuts.fits, ?_, hcuts.linked⟩
    exact fun p hp ↦ (hcuts.first p hp).1

end Discode
