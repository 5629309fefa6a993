import Discode.HelpText

/-!
# Help fits

The loop over the sections is a greedy packing, in which the chunk with the header takes its
first section unweighed and every other chunk its first two.
-/

set_option autoImplicit false

namespace Discode

namespace HelpText

open GreedyPacking

/-! ## Lengths -/

theorem length_intercalate (sep line : PyStr) (lines : List PyStr) :
    (sep.intercalate (line :: lines)).length =
      line.length + (lines.map fun l ↦ l.length + sep.length).sum := by
  induction lines generalizing line with
  | nil => rw [List.intercalate_singleton, List.map_nil, List.sum_nil, Nat.add_zero]
  | cons next lines ih =>
      rw [List.intercalate_cons_cons, List.length_append, List.length_append, ih, List.map_cons,
        List.sum_cons]
      omega

theorem length_wrapChunk (line : PyStr) (lines : List PyStr) :
    (wrapChunk (line :: lines)).length =
      wrapperOverhead + line.length + (lines.map fun l ↦ l.length + 2).sum := by
  rw [wrapChunk, List.length_append, List.length_append, length_intercalate, wrapperOverhead,
    show (pyStr "\n\n").length = 2 from rfl]
  omega

theorem length_wrapChunk_le_append (line : PyStr) (lines more : List PyStr) :
    (wrapChunk (line :: lines)).length ≤ (wrapChunk (line :: (lines ++ more))).length := by
  rw [length_wrapChunk, length_wrapChunk, List.map_append, List.sum_append]
  omega

/-! ## The loop as a packing -/

def packer : Packer PyStr where
  weight := fun text ↦ text.length + 2
  limit := helpChunkLimit
  first := { charge := header.length + wrapperOverhead, least := 1, least_pos := Nat.one_pos }
  later := { charge := wrapperOverhead, least := 2, least_pos := Nat.two_pos }

/-- The chunk under construction has the sections of `bin` behind the lines of `lead`. -/
structure Packing.Holds (s : Packing) (o : Opening) (lead bin : List PyStr) : Prop where
  lines : s.currentLines = lead ++ bin
  len : s.currentLen = packer.load o bin
  least : o.least + lead.length = 2

theorem Packing.holds_start : Packing.start.Holds packer.first [header] [] := ⟨rfl, rfl, rfl⟩

theorem Packing.Holds.closes_iff {s : Packing} {o : Opening} {lead bin : List PyStr}
    (h : s.Holds o lead bin) (text : PyStr) :
    helpChunkLimit < s.currentLen + (text.length + 2) ∧ 1 < s.currentLines.length ↔
      packer.Closes o bin text := by
  have hleast := h.least
  rw [h.len, h.lines, List.length_append]
  change _ ∧ _ ↔ _ ∧ _
  refine and_congr Iff.rfl ?_
  omega

/-- One round of the loop is one step of the packing. -/
theorem Packing.Holds.add {s : Packing} {o : Opening} {lead bin : List PyStr}
    (h : s.Holds o lead bin) (text : PyStr) :
    if packer.Closes o bin text then
      (s.add text).chunks = s.chunks ++ [wrapChunk (lead ++ bin)] ∧
        (s.add text).Holds packer.later [] [text]
    else (s.add text).chunks = s.chunks ∧ (s.add text).Holds o lead (bin ++ [text]) := by
  split
  · next closes =>
    have hadd : s.add text = { s.flush with
        currentLines := [] ++ [text]
        currentLen := wrapperOverhead + (text.length + 2) } := by
      rw [Packing.add, if_pos ((h.closes_iff text).mpr closes)]
      rfl
    rw [hadd]
    refine ⟨?_, rfl, rfl, rfl⟩
    rw [← h.lines]
    rfl
  · next hopen =>
    have hadd : s.add text = { s with
        currentLines := s.currentLines ++ [text]
        currentLen := s.currentLen + (text.length + 2) } := by
      rw [Packing.add, if_neg fun hc ↦ hopen ((h.closes_iff text).mp hc)]
    rw [hadd]
    refine ⟨rfl, ?_, ?_, h.least⟩
    · change s.currentLines ++ [text] = _
      rw [h.lines, List.append_assoc]
    · change s.currentLen + (text.length + 2) = _
      rw [h.len, Packer.load_append, List.map_singleton, List.sum_singleton]
      rfl

/-- The loop makes the chunks of the packing. -/
theorem Packing.Holds.finish_foldl (texts : List PyStr) : ∀ {s : Packing} {o : Opening}
    {lead bin : List PyStr}, s.Holds o lead bin → lead ++ bin ≠ [] →
      (texts.foldl Packing.add s).finish =
        s.chunks ++ ((packer.pack o bin texts).modifyHead (lead ++ ·)).map wrapChunk := by
  induction texts with
  | nil =>
      intro s o lead bin h hne
      rw [List.foldl_nil, Packing.finish, h.lines, if_neg hne]
      rfl
  | cons text texts ih =>
      intro s o lead bin h _
      have hadd := h.add text
      rw [List.foldl_cons, Packer.pack]
      split
      · next closes =>
        rw [if_pos closes] at hadd
        rw [ih hadd.2 (List.cons_ne_nil text []), hadd.1, List.append_assoc]
        congr 1
        cases packer.pack packer.later [text] texts <;> rfl
      · next hopen =>
        rw [if_neg hopen] at hadd
        rw [ih hadd.2 (by simp), hadd.1]

theorem renderHelpText_eq (tree : CommandTree) (guildId : Option ℕ) :
    renderHelpText tree guildId =
      ((packer.pack packer.first [] (sectionTexts tree guildId)).modifyHead
        ([header] ++ ·)).map wrapChunk :=
  Packing.holds_start.finish_foldl _ (List.cons_ne_nil header [])

/-! ## What fits -/

/-- Every section taken alone fits in a chunk, the first one together with the header. -/
structure SectionsFit (texts : List PyStr) : Prop where
  head : ∀ text ∈ texts.head?, (wrapChunk [header, text]).length ≤ helpChunkLimit
  tail : ∀ text ∈ texts.tail, (wrapChunk [text]).length ≤ helpChunkLimit

/-- The chunks consist of the header and the sections, each complete, once and in order. -/
def InOrder (texts chunks : List PyStr) : Prop :=
  ∃ groups : List (List PyStr), chunks = groups.map wrapChunk ∧ groups.flatten = header :: texts

/-- No section that begins a chunk of its own, behind a full one, comes before a section that
does not fit beside it. -/
def NeighboursFit (texts : List PyStr) : Prop :=
  ∀ text next rest, packer.Opens texts (text :: next :: rest) →
    (wrapChunk [text, next]).length ≤ helpChunkLimit

theorem inOrder_renderHelpText (tree : CommandTree) (guildId : Option ℕ) :
    InOrder (sectionTexts tree guildId) (renderHelpText tree guildId) := by
  refine ⟨_, renderHelpText_eq tree guildId, ?_⟩
  have hflatten := packer.pack_flatten (sectionTexts tree guildId) packer.first []
  obtain ⟨b, bs, hpack, -⟩ :=
    Packer.pack_eq_cons (p := packer) (sectionTexts tree guildId) Packer.packed_nil rfl
  rw [hpack] at hflatten ⊢
  rw [List.modifyHead_cons, List.flatten_cons, List.append_assoc, ← List.flatten_cons, hflatten]
  rfl

theorem SectionsFit.first {texts bin : List PyStr} (hfit : SectionsFit texts)
    (hpacked : packer.Packed packer.first bin) (hbegins : bin <+: texts) :
    (wrapChunk (header :: bin)).length ≤ helpChunkLimit := by
  cases bin with
  | nil => decide
  | cons text bin =>
      obtain ⟨rest, rfl⟩ := hbegins
      cases hpacked with
      | inl hlength =>
          have hnil : bin = [] :=
            List.length_eq_zero_iff.mp (Nat.le_zero.mp (Nat.le_of_succ_le_succ hlength))
          rw [hnil]
          exact hfit.head text rfl
      | inr hload =>
          rw [length_wrapChunk, Nat.add_comm wrapperOverhead]
          exact hload

theorem SectionsFit.later {texts bin tail : List PyStr} (hfit : SectionsFit texts)
    (hneighbours : NeighboursFit texts) (hpacked : packer.Packed packer.later bin)
    (hopens : packer.Opens texts (bin ++ tail)) :
    (wrapChunk bin).length ≤ helpChunkLimit := by
  match bin, hpacked with
  | [], _ => decide
  | [text], _ => exact hfit.tail text hopens.mem_tail
  | [text, next], _ => exact hneighbours text next tail hopens
  | text :: next :: third :: bin, .inl hlength => exact absurd hlength (by simp [packer])
  | text :: next :: third :: bin, .inr hload =>
      have hsum : wrapperOverhead + (text.length + 2 + ((next :: third :: bin).map fun l ↦
          l.length + 2).sum) ≤ helpChunkLimit := hload
      rw [length_wrapChunk]
      omega

theorem exists_chunk_of_opens {tree : CommandTree} {guildId : Option ℕ} {text next : PyStr}
    {rest : List PyStr}
    (h : packer.Opens (sectionTexts tree guildId) (text :: next :: rest)) :
    ∃ more, wrapChunk (text :: next :: more) ∈ renderHelpText tree guildId := by
  obtain ⟨b, closed, hpack⟩ := h.pack
  have hopen : ¬ packer.Closes packer.later [text] next := by
    rintro ⟨-, hleast⟩
    exact Nat.not_succ_le_self 1 hleast
  rw [Packer.pack, if_neg hopen] at hpack
  obtain ⟨bin, hbin, more, rfl⟩ := packer.exists_mem_pack rest packer.later ([text] ++ [next])
  refine ⟨more, ?_⟩
  rw [renderHelpText_eq, hpack, List.cons_append, List.modifyHead_cons, List.map_cons]
  exact List.mem_cons_of_mem _ (List.mem_map_of_mem (List.mem_append_right closed hbin))

/-! ## A tree of three groups -/

/-- A group of fifteen leaves with descriptions of sixty characters. -/
def wideGroup (name : String) : Command :=
  .group (pyStr name) ((List.range 15).map fun n ↦
    .leaf [0x61 + n] [] (some (List.replicate helpDescMax 0x78)))

def wideTree : CommandTree := ⟨["a", "b", "c"].map wideGroup, fun _ ↦ []⟩

theorem sectionsFit_wideTree : SectionsFit (sectionTexts wideTree none) := by
  have hlengths : (sectionTexts wideTree none).map List.length = [1022, 1022, 1022] := by
    decide +kernel
  have hall : ∀ text ∈ sectionTexts wideTree none, text.length = 1022 := by
    intro text htext
    have hlength : text.length ∈ [1022, 1022, 1022] := hlengths ▸ List.mem_map_of_mem htext
    simpa using hlength
  constructor
  · intro text htext
    rw [length_wrapChunk, List.map_singleton, List.sum_singleton,
      hall text (List.mem_of_mem_head? htext)]
    decide
  · intro text htext
    rw [length_wrapChunk, hall text (List.mem_of_mem_tail htext)]
    decide

/-- Every chunk of a tree whose sections fit by themselves is within the limit, with all the
sections in order, exactly if no two sections that begin a later chunk are too long together. -/
theorem help_fits_iff (tree : CommandTree) (guildId : Option ℕ)
    (hfit : SectionsFit (sectionTexts tree guildId)) :
    ((∀ chunk ∈ renderHelpText tree guildId, chunk.length ≤ helpChunkLimit) ∧
      InOrder (sectionTexts tree guildId) (renderHelpText tree guildId)) ↔
        NeighboursFit (sectionTexts tree guildId) := by
  constructor
  · rintro ⟨hchunks, -⟩ text next rest hopens
    obtain ⟨more, hmem⟩ := exists_chunk_of_opens hopens
    exact (length_wrapChunk_le_append text [next] more).trans (hchunks _ hmem)
  · intro hneighbours
    refine ⟨?_, inOrder_renderHelpText tree guildId⟩
    obtain ⟨b, bs, hpack, hpacked, hbegins, hlater⟩ :=
      Packer.pack_eq_cons (p := packer) (sectionTexts tree guildId) Packer.packed_nil rfl
    intro chunk hchunk
    rw [renderHelpText_eq, hpack, List.modifyHead_cons, List.map_cons] at hchunk
    rcases List.mem_cons.mp hchunk with rfl | hchunk
    · exact hfit.first hpacked hbegins
    · obtain ⟨bin, hbin, rfl⟩ := List.mem_map.mp hchunk
      obtain ⟨hbinPacked, tail, hopens⟩ := hlater bin hbin
      exact hfit.later hneighbours hbinPacked hopens

theorem help_fits_iff_wideTree : SectionsFit (sectionTexts wideTree none) ∧
    (((∀ chunk ∈ renderHelpText wideTree none, chunk.length ≤ helpChunkLimit) ∧
      InOrder (sectionTexts wideTree none) (renderHelpText wideTree none)) ↔
        NeighboursFit (sectionTexts wideTree none)) :=
  ⟨sectionsFit_wideTree, help_fits_iff wideTree none sectionsFit_wideTree⟩

/-- The second chunk takes two sections that are too long together. -/
theorem help_chunk_too_long : SectionsFit (sectionTexts wideTree none) ∧
    (renderHelpText wideTree none).map List.length = [1048, 2054] ∧
    ¬ ∀ chunk ∈ renderHelpText wideTree none, chunk.length ≤ helpChunkLimit := by
  have hlengths : (renderHelpText wideTree none).map List.length = [1048, 2054] := by
    decide +kernel
  refine ⟨sectionsFit_wideTree, hlengths, fun hall ↦ ?_⟩
  have hmem : 2054 ∈ (renderHelpText wideTree none).map List.length := by simp [hlengths]
  obtain ⟨chunk, hchunk, hlength⟩ := List.mem_map.mp hmem
  exact absurd (hlength ▸ hall chunk hchunk) (by decide)

end HelpText

end Discode
