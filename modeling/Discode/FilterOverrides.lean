import Discode.DiffPreview

/-!
# The overrides of the filter drivers

Which drivers of a workspace get their overrides under their exact name, before `git diff` runs.
-/

set_option autoImplicit false

namespace Discode.DiffPreview

open Utf8 (Scalar encode decode)
open ExecSession (Chunks ExecError ExecResult Limits truncationNotice)

variable {keys : List FilterKey} {k : FilterKey}

/-! ## The property -/

/-- Every setting of the driver of that name is among the `-c` arguments, byte for byte. -/
def Overridden (name : List ℕ) (args : List PyStr) : Prop :=
  ∀ setting ∈ filterOverrides, ∃ arg, [pyStr "-c", arg] <:+: args ∧
    encode arg = filterPrefix ++ name ++ ending setting

/-- The request is refused, or every driver is overridden. -/
def Disarmed (run : ListingRun keys) : Prop :=
  (∀ realpath, ∃ status detail, diffPreview realpath run.result = .refused status detail) ∨
    ∃ args, neutralizedFilterArgs run.result = .ok args ∧ ∀ k ∈ keys, Overridden k.name args

/-! ## Arguments -/

theorem mem_sortedNames {names : List PyStr} {name : PyStr} :
    name ∈ sortedNames names ↔ name ∈ names := by
  rw [sortedNames, List.mem_mergeSort, List.mem_dedup]

theorem encode_override (name : PyStr) {setting : String × String}
    (hsetting : setting ∈ filterOverrides) :
    encode (override name setting) = filterPrefix ++ encode name ++ ending setting := by
  have hascii : ∀ setting ∈ filterOverrides,
      (∀ c ∈ filterPrefix, c < 0x80) ∧ ∀ c ∈ ending setting, c < 0x80 := by
    decide +kernel
  obtain ⟨hpre, hending⟩ := hascii setting hsetting
  rw [override, Utf8.encode_append, Utf8.encode_append, Utf8.encode_ascii hpre,
    Utf8.encode_ascii hending]

/-- The settings end differently, so an argument tells which one it is. -/
theorem append_ending_inj {x y : List ℕ} {s t : String × String} (hs : s ∈ filterOverrides)
    (ht : t ∈ filterOverrides) (h : x ++ ending s = y ++ ending t) : x = y := by
  have hends : ∀ s ∈ filterOverrides, ∀ t ∈ filterOverrides,
      2 ≤ (ending s).length ∧ ((ending s).reverse.take 2 = (ending t).reverse.take 2 → s = t) := by
    decide +kernel
  have htake : ∀ (x : List ℕ) (s : String × String), s ∈ filterOverrides →
      (x ++ ending s).reverse.take 2 = (ending s).reverse.take 2 := by
    intro x s hs
    rw [List.reverse_append, List.take_append_of_le_length]
    rw [List.length_reverse]
    exact (hends s hs s hs).1
  have hst : s = t := by
    apply (hends s hs t ht).2
    rw [← htake x s hs, h, htake y t ht]
  subst hst
  exact List.append_cancel_right h

theorem infix_flatMap {α β : Type*} {a : α} {as : List α} (h : a ∈ as) (f : α → List β) :
    f a <:+: as.flatMap f := by
  rw [List.flatMap_def]
  exact List.infix_of_mem_flatten (List.mem_map_of_mem h)

theorem overridden_filterArgs {names : List PyStr} {name : List ℕ} :
    Overridden name (filterArgs (sortedNames names)) ↔ ∃ n ∈ names, encode n = name := by
  constructor
  · intro h
    have hclean : ("clean", "") ∈ filterOverrides := List.mem_cons_self
    obtain ⟨arg, hinfix, harg⟩ := h _ hclean
    have hmem : arg ∈ filterArgs (sortedNames names) :=
      hinfix.subset (List.mem_cons_of_mem _ (List.mem_singleton_self arg))
    obtain ⟨n, hn, hmem⟩ := List.mem_flatMap.mp hmem
    obtain ⟨setting, hsetting, hmem⟩ := List.mem_flatMap.mp hmem
    refine ⟨n, mem_sortedNames.mp hn, ?_⟩
    rcases List.mem_cons.mp hmem with rfl | hmem
    · -- the argument is no `-c`
      have hdash : (encode (pyStr "-c")).head? = some 0x2d := by decide +kernel
      have hpre : filterPrefix.head? = some 0x66 := by decide +kernel
      have hhead := congrArg List.head? harg
      rw [List.append_assoc, List.head?_append, hdash, hpre] at hhead
      cases hhead
    · rw [List.mem_singleton.mp hmem, encode_override n hsetting] at harg
      exact List.append_cancel_left (append_ending_inj hsetting hclean harg)
  · rintro ⟨n, hn, rfl⟩ setting hsetting
    refine ⟨override n setting, ?_, encode_override n hsetting⟩
    have hname := infix_flatMap (mem_sortedNames.mpr hn) fun name ↦
      filterOverrides.flatMap fun setting ↦ [pyStr "-c", override name setting]
    exact (infix_flatMap hsetting fun setting ↦ [pyStr "-c", override n setting]).trans hname

/-! ## Names that survive the reading -/

/-- The name is UTF-8, and no character of it ends a line for `splitlines`. -/
def IsLineText (name : List ℕ) : Prop :=
  ∃ t : PyStr, (∀ c ∈ t, Scalar c ∧ isLineBreak c = false) ∧ encode t = name

/-- The keys whose lines are within the first `n` bytes of the listing. -/
def wholeKeys : ℕ → List FilterKey → List FilterKey
  | _, [] => []
  | n, k :: keys =>
      if k.line.length < n then k :: wholeKeys (n - (k.line.length + 1)) keys else []

/-- What the first `n` bytes hold of the line after those. -/
def cutLine : ℕ → List FilterKey → List ℕ
  | _, [] => []
  | n, k :: keys =>
      if k.line.length < n then cutLine (n - (k.line.length + 1)) keys else k.line.take n

theorem listing_cons (k : FilterKey) (keys : List FilterKey) :
    listing (k :: keys) = k.line ++ newline :: listing keys := by
  simp [listing]

theorem take_listing (n : ℕ) (keys : List FilterKey) :
    (listing keys).take n = listing (wholeKeys n keys) ++ cutLine n keys := by
  induction keys generalizing n with
  | nil => simp [listing, wholeKeys, cutLine]
  | cons k keys ih =>
      rw [listing_cons, wholeKeys, cutLine]
      by_cases hwhole : k.line.length < n
      · have hn : n - k.line.length = n - (k.line.length + 1) + 1 := by omega
        rw [if_pos hwhole, if_pos hwhole, listing_cons, List.take_append,
          List.take_of_length_le hwhole.le, hn, List.take_succ_cons, ih, List.append_assoc,
          List.cons_append]
      · rw [if_neg hwhole, if_neg hwhole, List.take_append_of_le_length (Nat.not_lt.mp hwhole)]
        rfl

theorem wholeKeys_eq {n : ℕ} {keys : List FilterKey} (h : (listing keys).length ≤ n) :
    wholeKeys n keys = keys ∧ cutLine n keys = [] := by
  induction keys generalizing n with
  | nil => exact ⟨rfl, rfl⟩
  | cons k keys ih =>
      rw [listing_cons, List.length_append, List.length_cons] at h
      have hwhole : k.line.length < n := by omega
      obtain ⟨hkeys, hcut⟩ := ih (n := n - (k.line.length + 1)) (by omega)
      rw [wholeKeys, cutLine, if_pos hwhole, if_pos hwhole, hkeys, hcut]
      exact ⟨rfl, rfl⟩

theorem wholeKeys_subset (n : ℕ) (keys : List FilterKey) : wholeKeys n keys ⊆ keys := by
  induction keys generalizing n with
  | nil => exact List.Subset.refl _
  | cons k keys ih =>
      rw [wholeKeys]
      split
      · exact List.cons_subset_cons k (ih _)
      · exact List.nil_subset _

/-- The cut line is the start of the line of a key, or nothing. -/
theorem cutLine_prefix (n : ℕ) (keys : List FilterKey) :
    cutLine n keys = [] ∨ ∃ k ∈ keys, cutLine n keys <+: k.line := by
  induction keys generalizing n with
  | nil => exact .inl rfl
  | cons k keys ih =>
      rw [cutLine]
      split
      · rcases ih (n - (k.line.length + 1)) with hnil | ⟨k', hk', hpre⟩
        · exact .inl hnil
        · exact .inr ⟨k', List.mem_cons_of_mem k hk', hpre⟩
      · exact .inr ⟨k, List.mem_cons_self, List.take_prefix n _⟩

/-! ## The names that are read -/

/-- The names that are read off a text, as the bytes that git gets. -/
def encodedNames (text : PyStr) : List (List ℕ) := (namesOf text).map encode

theorem isVariableChar_facts {b : ℕ} (h : isVariableChar b = true) :
    b < 0x80 ∧ b ≠ dot ∧ isSpace b = false ∧ isLineBreak b = false := by
  have hlt : b < 0x80 := by
    simp only [isVariableChar, Bool.or_eq_true, Bool.and_eq_true, decide_eq_true_eq,
      beq_iff_eq] at h
    omega
  have hall : ∀ b < 0x80, isVariableChar b = true →
      b ≠ dot ∧ isSpace b = false ∧ isLineBreak b = false := by
    decide +kernel
  exact ⟨hlt, hall b hlt h⟩

theorem filterPrefix_facts : (∀ c ∈ filterPrefix, c < 0x80 ∧ isLineBreak c = false) ∧
    ∃ rest, filterPrefix = 0x66 :: rest ∧ isSpace 0x66 = false := by
  refine ⟨by decide +kernel, filterPrefix.tail, ?_⟩
  decide +kernel

/-- The line of a key whose name is the text `t`. -/
def lineText (t : PyStr) (k : FilterKey) : PyStr := filterPrefix ++ t ++ dot :: k.var

theorem encode_lineText {t : PyStr} (h : encode t = k.name) : encode (lineText t k) = k.line := by
  have hend : ∀ c ∈ dot :: k.var, c < 0x80 := List.forall_mem_cons.mpr
    ⟨by decide, fun c hc ↦ (isVariableChar_facts (k.var_chars c hc)).1⟩
  rw [lineText, Utf8.encode_append, Utf8.encode_append, h,
    Utf8.encode_ascii fun c hc ↦ (filterPrefix_facts.1 c hc).1, Utf8.encode_ascii hend]
  rfl

theorem lineText_fits {t : PyStr} (ht : ∀ c ∈ t, Scalar c ∧ isLineBreak c = false) :
    ∀ c ∈ lineText t k, Scalar c ∧ isLineBreak c = false := by
  have hascii : ∀ c, c < 0x80 → Scalar c := fun c hc ↦ .inl (by omega)
  intro c hc
  rcases List.mem_append.mp hc with hc | hc
  · rcases List.mem_append.mp hc with hc | hc
    · exact (filterPrefix_facts.1 c hc).imp_left (hascii c)
    · exact ht c hc
  · rcases List.mem_cons.mp hc with rfl | hc
    · exact ⟨hascii _ (by decide), by decide⟩
    · obtain ⟨hlt, -, -, hbreak⟩ := isVariableChar_facts (k.var_chars c hc)
      exact ⟨hascii c hlt, hbreak⟩

/-- The line of a key is neither stripped nor cut, and its name is read exactly. -/
theorem strip_lineText (t : PyStr) (k : FilterKey) : strip (lineText t k) = lineText t k := by
  obtain ⟨rest, hpre, hspace⟩ := filterPrefix_facts.2
  obtain ⟨init, last, hvar⟩ := List.eq_nil_or_concat k.var |>.resolve_left k.var_ne
  have hlast : isSpace last = false :=
    (isVariableChar_facts (k.var_chars last (by simp [hvar]))).2.2.1
  have hline : lineText t k = 0x66 :: ((rest ++ t ++ dot :: init) ++ [last]) := by
    simp [lineText, hpre, hvar]
  rw [hline]
  exact strip_eq _ hspace hlast

theorem readName_lineText (t : PyStr) (k : FilterKey) : readName (lineText t k) = t := by
  have hdot : dot ∉ k.var := fun hmem ↦ (isVariableChar_facts (k.var_chars dot hmem)).2.1 rfl
  rw [readName, strip_lineText, lineText, List.append_assoc, List.drop_left]
  exact beforeLast_append hdot

theorem namesOf_line {line : PyStr} (hline : ∀ c ∈ line, isLineBreak c = false) (rest : PyStr) :
    namesOf (line ++ newline :: rest) =
      (if strip line ≠ [] then [readName line] else []) ++ namesOf rest := by
  rw [namesOf, newline, splitlines_append_newline hline, List.filter_cons]
  by_cases hstrip : strip line ≠ []
  · simp [hstrip, namesOf]
  · simp [hstrip, namesOf]

/-- The keys whose lines are read whole give their own names. -/
theorem encodedNames_listing (hkeys : ∀ k ∈ keys, IsLineText k.name) (bytes : List ℕ)
    (tail : PyStr) : encodedNames (decode (listing keys ++ bytes) ++ tail) =
      keys.map FilterKey.name ++ encodedNames (decode bytes ++ tail) := by
  induction keys with
  | nil => rfl
  | cons k keys ih =>
      obtain ⟨t, ht, hname⟩ := hkeys k List.mem_cons_self
      have hfits := lineText_fits (k := k) ht
      have hstrip : strip (lineText t k) ≠ [] := by
        rw [strip_lineText]
        simp [lineText]
      have hbytes : listing (k :: keys) ++ bytes =
          encode (lineText t k ++ [newline]) ++ (listing keys ++ bytes) := by
        rw [listing_cons, Utf8.encode_append, encode_lineText hname]
        simp [newline, Utf8.encode, Utf8.encodeChar]
      have hscalar : ∀ c ∈ lineText t k ++ [newline], Scalar c := by
        intro c hc
        rcases List.mem_append.mp hc with hc | hc
        · exact (hfits c hc).1
        · rw [List.mem_singleton.mp hc]
          exact .inl (by decide)
      have hrest := ih fun k' hk' ↦ hkeys k' (List.mem_cons_of_mem k hk')
      rw [hbytes, Utf8.decode_encode_append hscalar, List.append_assoc, List.append_assoc,
        encodedNames, List.singleton_append, namesOf_line fun c hc ↦ (hfits c hc).2, if_pos hstrip,
        readName_lineText, List.singleton_append, List.map_cons, hname, List.map_cons,
        List.cons_append]
      exact congrArg _ hrest

/-! ## The text that is read -/

/-- The output after the cap, decoded. -/
def keptText (keys : List FilterKey) : PyStr :=
  decode ((listing keys).take maxBytes) ++
    if maxBytes < (listing keys).length then truncationNotice limits else []

theorem result_of_nil {run : ListingRun []} {err : List ℕ} {stdout : Chunks (listing [])}
    {stderr : Chunks err} (h : run = .finished stdout err stderr) :
    run.result = .error (.failed 1) := by
  subst h
  have hresult := ExecSession.result_eq limits stdout stderr (exitCode [])
  rw [if_neg (show exitCode [] ≠ 0 by decide), if_pos (show exitCode [] ≠ 0 by decide),
    ite_self] at hresult
  exact hresult

theorem result_of_killed (hne : keys ≠ []) (stdout : Chunks (listing keys)) {err : List ℕ}
    (stderr : Chunks err)
    (hkill : limits.killBytes < (listing keys).length ∨ limits.killBytes < err.length) :
    (ListingRun.finished stdout err stderr).result =
      .error (.failed (-ExecSession.sigkill)) := by
  have hcode : exitCode keys = 0 := if_neg hne
  have hresult := ExecSession.result_eq limits stdout stderr (exitCode keys)
  rw [if_pos hkill, if_pos hcode] at hresult
  exact hresult

theorem result_of_kept (hne : keys ≠ []) (stdout : Chunks (listing keys)) {err : List ℕ}
    (stderr : Chunks err)
    (hkept : ¬ (limits.killBytes < (listing keys).length ∨ limits.killBytes < err.length)) :
    ∃ result, (ListingRun.finished stdout err stderr).result = .ok result ∧
      result.text = keptText keys := by
  have hcode : exitCode keys = 0 := if_neg hne
  have hresult := ExecSession.result_eq limits stdout stderr (exitCode keys)
  rw [if_neg hkept, if_neg (not_not.mpr hcode)] at hresult
  refine ⟨_, hresult, ?_⟩
  have htruncated : ((listing keys).take maxBytes).length < (listing keys).length ↔
      maxBytes < (listing keys).length := by
    rw [List.length_take]
    omega
  simp only [ExecSession.Reader.text, ExecSession.readBounded_eq, keptText, limits,
    Limits.ofMax, htruncated]

theorem truncationNotice_scalar : ∀ c ∈ truncationNotice limits, Scalar c := by
  have hascii : ∀ c ∈ truncationNotice limits, c < 0x80 := by decide +kernel
  exact fun c hc ↦ .inl (lt_trans (hascii c hc) (by decide))

theorem mem_readName {key : PyStr} {c : CodePoint} (h : c ∈ readName key) : c ∈ key :=
  mem_of_mem_strip (List.mem_of_mem_drop (mem_of_mem_beforeLast h))

/-- What is read of the output is text, on one line. -/
theorem isLineText_of_mem {name : List ℕ} (h : name ∈ encodedNames (keptText keys)) :
    IsLineText name := by
  obtain ⟨n, hn, rfl⟩ := List.mem_map.mp h
  obtain ⟨line, hline, rfl⟩ := List.mem_map.mp hn
  refine ⟨readName line, fun c hc ↦ ?_, rfl⟩
  obtain ⟨hmem, hbreak⟩ := mem_splitlines (List.mem_filter.mp hline).1 c (mem_readName hc)
  refine ⟨?_, hbreak⟩
  rcases List.mem_append.mp hmem with hmem | hmem
  · exact Utf8.scalar_of_mem_decode _ c hmem
  · split at hmem
    · exact truncationNotice_scalar c hmem
    · cases hmem

/-- The name that is read off the truncation notice. -/
def noticeName : List ℕ := encode (readName (pyStr "[truncated at 65536 bytes]"))

/-- The name that is read off the line that is cut. -/
def cutNames (keys : List FilterKey) : List (List ℕ) :=
  let cut := decode (cutLine maxBytes keys)
  if strip cut ≠ [] then [encode (readName cut)] else []

theorem decode_cutLine_fits (hkeys : ∀ k ∈ keys, IsLineText k.name) (n : ℕ) :
    ∀ c ∈ decode (cutLine n keys), isLineBreak c = false := by
  intro c hc
  rcases cutLine_prefix n keys with hnil | ⟨k, hk, hpre⟩
  · rw [hnil] at hc
    cases hc
  · obtain ⟨t, ht, hname⟩ := hkeys k hk
    have hfits := lineText_fits (k := k) ht
    rw [← encode_lineText hname] at hpre
    rcases Utf8.mem_decode_prefix (fun d hd ↦ (hfits d hd).1) hpre c hc with hc | rfl
    · exact (hfits c hc).2
    · decide

theorem encodedNames_keptText (hkeys : ∀ k ∈ keys, IsLineText k.name) :
    encodedNames (keptText keys) = (wholeKeys maxBytes keys).map FilterKey.name ++
      if maxBytes < (listing keys).length then cutNames keys ++ [noticeName] else [] := by
  have hwhole : ∀ k ∈ wholeKeys maxBytes keys, IsLineText k.name :=
    fun k hk ↦ hkeys k (wholeKeys_subset _ _ hk)
  rw [keptText, take_listing, encodedNames_listing hwhole]
  congr 1
  by_cases htruncated : maxBytes < (listing keys).length
  · have htext : truncationNotice limits = newline :: pyStr "[truncated at 65536 bytes]" := by
      decide +kernel
    rw [if_pos htruncated, if_pos htruncated, encodedNames, htext,
      namesOf_line (decode_cutLine_fits hkeys _), List.map_append, cutNames]
    have hnotice : namesOf (pyStr "[truncated at 65536 bytes]") =
        [readName (pyStr "[truncated at 65536 bytes]")] := by
      decide +kernel
    rw [hnotice]
    split <;> rfl
  · rw [if_neg htruncated, if_neg htruncated, (wholeKeys_eq (Nat.not_lt.mp htruncated)).2]
    rfl

/-! ## When the drivers are disarmed -/

/-- The name is that of a key whose line is read whole, or, if the output is cut, what the cut
line or the notice happens to read as. -/
def ReadOff (keys : List FilterKey) (name : List ℕ) : Prop :=
  (∃ k ∈ wholeKeys maxBytes keys, k.name = name) ∨
    (maxBytes < (listing keys).length ∧ (name ∈ cutNames keys ∨ name = noticeName))

theorem mem_encodedNames_iff (hkeys : ∀ k ∈ keys, IsLineText k.name) {name : List ℕ} :
    name ∈ encodedNames (keptText keys) ↔ ReadOff keys name := by
  rw [encodedNames_keptText hkeys, List.mem_append, List.mem_map, ReadOff]
  apply or_congr_right
  split <;> simp_all

/-- The listing fails or is refused, or every name is text on one line and is read. -/
def Readable : ListingRun keys → Prop
  | .timeout | .osError => True
  | .finished _ err _ =>
      (limits.killBytes < (listing keys).length ∨ limits.killBytes < err.length) ∨
      (∃ name ∈ namesOf (keptText keys), Unsupported name) ∨
      ((∀ k ∈ keys, IsLineText k.name) ∧ ∀ k ∈ keys, ReadOff keys k.name)

theorem disarmed_of_error {run : ListingRun keys} {error : ExecError} (hne : error ≠ .failed 1)
    (h : run.result = .error error) : Disarmed run := by
  have herror : neutralizedFilterArgs run.result = .error (.exec error) := by
    rw [h, neutralizedFilterArgs, if_neg hne]
  exact .inl (diffPreview_of_error herror)

theorem disarmed_of_ok {run : ListingRun keys} {result : ExecResult}
    (h : run.result = .ok result) :
    Disarmed run ↔ (∃ name ∈ namesOf result.text, Unsupported name) ∨
      ∀ k ∈ keys, k.name ∈ encodedNames result.text := by
  by_cases hunsupported : ∃ name ∈ namesOf result.text, Unsupported name
  · have herror : neutralizedFilterArgs run.result = .error .unsupportedConfig := by
      rw [h, neutralizedFilterArgs, if_pos hunsupported]
    exact iff_of_true (.inl (diffPreview_of_error herror)) (.inl hunsupported)
  · have hok : neutralizedFilterArgs run.result =
        .ok (filterArgs (sortedNames (namesOf result.text))) := by
      rw [h, neutralizedFilterArgs, if_neg hunsupported]
    have hnames : ∀ name, Overridden name (filterArgs (sortedNames (namesOf result.text))) ↔
        name ∈ encodedNames result.text := by
      intro name
      rw [overridden_filterArgs, encodedNames, List.mem_map]
    constructor
    · rintro (hrefused | ⟨args, hargs, hover⟩)
      · obtain ⟨before, after, hdiff⟩ := diffPreview_of_ok hok []
        obtain ⟨status, detail, hrefused⟩ := hrefused []
        rw [hdiff] at hrefused
        cases hrefused
      · cases hok.symm.trans hargs
        exact .inr fun k hk ↦ (hnames k.name).mp (hover k hk)
    · rintro (hbad | hread)
      · exact absurd hbad hunsupported
      · exact .inr ⟨_, hok, fun k hk ↦ (hnames k.name).mpr (hread k hk)⟩

theorem filter_drivers_disarmed_iff (run : ListingRun keys) : Disarmed run ↔ Readable run := by
  cases run with
  | timeout => exact iff_of_true (disarmed_of_error (by decide) rfl) trivial
  | osError => exact iff_of_true (disarmed_of_error (by decide) rfl) trivial
  | finished stdout err stderr =>
      by_cases hnil : keys = []
      · subst hnil
        have hnone : neutralizedFilterArgs (ListingRun.finished stdout err stderr).result =
            .ok [] := by
          rw [result_of_nil rfl]
          rfl
        exact iff_of_true (.inr ⟨_, hnone, fun _ h ↦ nomatch h⟩)
          (.inr (.inr ⟨(fun _ h ↦ nomatch h), fun _ h ↦ nomatch h⟩))
      by_cases hkill : limits.killBytes < (listing keys).length ∨ limits.killBytes < err.length
      · exact iff_of_true (disarmed_of_error (by decide) (result_of_killed hnil stdout stderr hkill))
          (.inl hkill)
      · obtain ⟨result, hresult, htext⟩ := result_of_kept hnil stdout stderr hkill
        rw [disarmed_of_ok hresult, htext]
        constructor
        · rintro (hbad | hread)
          · exact .inr (.inl hbad)
          · have hkeys : ∀ k ∈ keys, IsLineText k.name :=
              fun k hk ↦ isLineText_of_mem (hread k hk)
            exact .inr (.inr ⟨hkeys, fun k hk ↦ (mem_encodedNames_iff hkeys).mp (hread k hk)⟩)
        · rintro (hkilled | hbad | ⟨hkeys, hread⟩)
          · exact absurd hkilled hkill
          · exact .inl hbad
          · exact .inr fun k hk ↦ (mem_encodedNames_iff hkeys).mpr (hread k hk)

/-! ## A name that is no UTF-8 -/

/-- `filter.é.clean` in Latin-1. -/
def latinKey : FilterKey where
  name := [0xe9]
  var := pyStr "clean"
  name_bytes := by decide
  var_ne := by decide
  var_chars := by decide +kernel

def latinRun : ListingRun [latinKey] := .finished
  { chunks := [listing [latinKey]]
    nonempty := by decide +kernel
    flatten_eq := List.append_nil _ } [] ⟨[], List.not_mem_nil, rfl⟩

/-- The overrides are those of a driver named U+FFFD. -/
theorem latin_driver_not_disarmed : ¬ Disarmed latinRun ∧
    neutralizedFilterArgs latinRun.result = .ok (filterArgs [[Utf8.replacement]]) := by
  obtain ⟨result, hresult, htext⟩ : ∃ result, latinRun.result = .ok result ∧
      result.text = keptText [latinKey] :=
    result_of_kept (List.cons_ne_nil _ _) _ _ (by decide +kernel)
  have hnames : namesOf (keptText [latinKey]) = [[Utf8.replacement]] := by decide +kernel
  constructor
  · rw [disarmed_of_ok hresult, htext, encodedNames, hnames]
    decide +kernel
  · rw [hresult, neutralizedFilterArgs, htext, hnames]
    decide +kernel

end Discode.DiffPreview
