import Mathlib.Algebra.GroupWithZero.Nat
import Mathlib.Data.List.Basic
import Mathlib.Data.Nat.Notation

/-!
# UTF-8

Encoding of scalar values, and a decoder that puts U+FFFD in place of every maximal part of an
ill-formed sequence.  Bytes and code points are numbers.
-/

set_option autoImplicit false

namespace Utf8

/-- A code point that is no surrogate. -/
def Scalar (c : ℕ) : Prop := c < 0xd800 ∨ (0xdfff < c ∧ c < 0x110000)

def encodeChar (c : ℕ) : List ℕ :=
  if c < 0x80 then [c]
  else if c < 0x800 then [0xc0 + c / 64, 0x80 + c % 64]
  else if c < 0x10000 then [0xe0 + c / 4096, 0x80 + c / 64 % 64, 0x80 + c % 64]
  else [0xf0 + c / 262144, 0x80 + c / 4096 % 64, 0x80 + c / 64 % 64, 0x80 + c % 64]

def encode (s : List ℕ) : List ℕ := s.flatMap encodeChar

/-- U+FFFD. -/
def replacement : ℕ := 0xfffd

/-- A character of which `left` bytes are missing; the next one is between `low` and `high`. -/
structure Partial where
  left : ℕ
  value : ℕ
  low : ℕ
  high : ℕ

def Partial.extend (p : Partial) (b : ℕ) : ℕ := p.value * 64 + (b - 0x80)

def Partial.next (p : Partial) (b : ℕ) : Partial := ⟨p.left - 1, p.extend b, 0x80, 0xbf⟩

/-- The first byte of a character. -/
def start (b : ℕ) : List ℕ × Option Partial :=
  if b < 0x80 then ([b], none)
  else if 0xc2 ≤ b ∧ b ≤ 0xdf then ([], some ⟨1, b - 0xc0, 0x80, 0xbf⟩)
  else if 0xe0 ≤ b ∧ b ≤ 0xef then
    ([], some ⟨2, b - 0xe0, if b = 0xe0 then 0xa0 else 0x80, if b = 0xed then 0x9f else 0xbf⟩)
  else if 0xf0 ≤ b ∧ b ≤ 0xf4 then
    ([], some ⟨3, b - 0xf0, if b = 0xf0 then 0x90 else 0x80, if b = 0xf4 then 0x8f else 0xbf⟩)
  else ([replacement], none)

/-- One byte: the characters it completes, and the one it leaves open. -/
def step : Option Partial → ℕ → List ℕ × Option Partial
  | none, b => start b
  | some p, b =>
      if p.low ≤ b ∧ b ≤ p.high then
        if p.left = 1 then ([p.extend b], none) else ([], some (p.next b))
      else (replacement :: (start b).1, (start b).2)

def decodeFrom : Option Partial → List ℕ → List ℕ
  | none, [] => []
  | some _, [] => [replacement]
  | q, b :: bs => (step q b).1 ++ decodeFrom (step q b).2 bs

/-- `bytes.decode("utf-8", errors="replace")`. -/
def decode (bs : List ℕ) : List ℕ := decodeFrom none bs

@[simp] theorem decode_nil : decode [] = [] := rfl

@[simp] theorem encode_nil : encode [] = [] := rfl

@[simp] theorem encode_cons (c : ℕ) (s : List ℕ) : encode (c :: s) = encodeChar c ++ encode s := rfl

@[simp] theorem encode_append (s t : List ℕ) : encode (s ++ t) = encode s ++ encode t :=
  List.flatMap_append

theorem encode_ascii {s : List ℕ} (h : ∀ c ∈ s, c < 0x80) : encode s = s := by
  induction s with
  | nil => rfl
  | cons c s ih =>
      rw [encode_cons, encodeChar, if_pos (h c List.mem_cons_self),
        ih fun d hd ↦ h d (List.mem_cons_of_mem c hd)]
      rfl

/-! ## Round trips -/

/-- The bytes that are missing of a character. -/
def Partial.Completes (c : ℕ) : Partial → List ℕ → Prop
  | _, [] => False
  | p, b :: bs => (p.low ≤ b ∧ b ≤ p.high) ∧
      (if p.left = 1 then bs = [] ∧ p.extend b = c else Completes c (p.next b) bs)

theorem Partial.completes_last {c b : ℕ} {p : Partial} (hleft : p.left = 1)
    (hrange : p.low ≤ b ∧ b ≤ p.high) (hc : p.extend b = c) : p.Completes c [b] := by
  refine ⟨hrange, ?_⟩
  rw [if_pos hleft]
  exact ⟨rfl, hc⟩

theorem Partial.completes_cons {c b n : ℕ} {bs : List ℕ} {p : Partial} (hleft : p.left = n + 2)
    (hrange : p.low ≤ b ∧ b ≤ p.high) (hnext : (p.next b).Completes c bs) :
    p.Completes c (b :: bs) := by
  refine ⟨hrange, ?_⟩
  rw [if_neg (by omega)]
  exact hnext

theorem encodeChar_cases {c : ℕ} (hc : Scalar c) : (c < 0x80 ∧ encodeChar c = [c]) ∨
    ∃ b p bs, encodeChar c = b :: bs ∧ start b = ([], some p) ∧ p.Completes c bs := by
  unfold Scalar at hc
  unfold encodeChar
  split_ifs with h₁ h₂ h₃
  · exact .inl ⟨h₁, rfl⟩
  · refine .inr ⟨_, _, _, rfl, by rw [start, if_neg (by omega), if_pos (by omega)], ?_⟩
    apply Partial.completes_last rfl
    · exact ⟨Nat.le_add_right _ _, by change _ ≤ 0xbf; omega⟩
    · change (0xc0 + c / 64 - 0xc0) * 64 + (0x80 + c % 64 - 0x80) = c
      omega
  · refine .inr ⟨_, _, _, rfl,
      by rw [start, if_neg (by omega), if_neg (by omega), if_pos (by omega)], ?_⟩
    apply Partial.completes_cons rfl
    · constructor
      · change (if _ then _ else _) ≤ _
        split_ifs <;> omega
      · change _ ≤ (if _ then _ else _)
        split_ifs <;> omega
    apply Partial.completes_last rfl
    · exact ⟨Nat.le_add_right _ _, by change _ ≤ 0xbf; omega⟩
    · change ((0xe0 + c / 4096 - 0xe0) * 64 + (0x80 + c / 64 % 64 - 0x80)) * 64 +
        (0x80 + c % 64 - 0x80) = c
      omega
  · refine .inr ⟨_, _, _, rfl,
      by rw [start, if_neg (by omega), if_neg (by omega), if_neg (by omega),
        if_pos (by omega)], ?_⟩
    apply Partial.completes_cons rfl
    · constructor
      · change (if _ then _ else _) ≤ _
        split_ifs <;> omega
      · change _ ≤ (if _ then _ else _)
        split_ifs <;> omega
    apply Partial.completes_cons rfl
    · exact ⟨Nat.le_add_right _ _, by change _ ≤ 0xbf; omega⟩
    apply Partial.completes_last rfl
    · exact ⟨Nat.le_add_right _ _, by change _ ≤ 0xbf; omega⟩
    · change (((0xf0 + c / 262144 - 0xf0) * 64 + (0x80 + c / 4096 % 64 - 0x80)) * 64 +
        (0x80 + c / 64 % 64 - 0x80)) * 64 + (0x80 + c % 64 - 0x80) = c
      omega

theorem decodeFrom_completes {c : ℕ} {p : Partial} {bs : List ℕ} (h : p.Completes c bs)
    (rest : List ℕ) : decodeFrom (some p) (bs ++ rest) = c :: decode rest := by
  induction bs generalizing p with
  | nil => exact h.elim
  | cons b bs ih =>
      obtain ⟨hrange, hnext⟩ := h
      rw [List.cons_append, decodeFrom, step, if_pos hrange]
      by_cases hleft : p.left = 1
      · rw [if_pos hleft] at hnext ⊢
        obtain ⟨rfl, rfl⟩ := hnext
        rfl
      · rw [if_neg hleft] at hnext ⊢
        exact ih hnext

/-- A character of which only some bytes are there. -/
theorem decodeFrom_cut {c : ℕ} {p : Partial} {bs cut : List ℕ} (h : p.Completes c bs)
    (hcut : cut <+: bs) (hne : cut ≠ bs) : decodeFrom (some p) cut = [replacement] := by
  induction bs generalizing p cut with
  | nil => exact h.elim
  | cons b bs ih =>
      cases cut with
      | nil => rfl
      | cons b' cut =>
          obtain ⟨rfl, hcut'⟩ := List.cons_prefix_cons.mp hcut
          obtain ⟨hrange, hnext⟩ := h
          have hne' : cut ≠ bs := fun heq ↦ hne (heq ▸ rfl)
          rw [decodeFrom, step, if_pos hrange]
          by_cases hleft : p.left = 1
          · rw [if_pos hleft] at hnext
            obtain ⟨rfl, -⟩ := hnext
            exact absurd (List.prefix_nil.mp hcut') hne'
          · rw [if_neg hleft] at hnext ⊢
            exact ih hnext hcut' hne'

theorem decode_encodeChar {c : ℕ} (hc : Scalar c) (rest : List ℕ) :
    decode (encodeChar c ++ rest) = c :: decode rest := by
  rcases encodeChar_cases hc with ⟨hlt, h⟩ | ⟨b, p, bs, h, hstart, hcompletes⟩
  · rw [h, decode, List.singleton_append, decodeFrom, step, start, if_pos hlt]
    rfl
  · rw [h, decode, List.cons_append, decodeFrom, step, hstart]
    exact decodeFrom_completes hcompletes rest

theorem decode_encode_append {s : List ℕ} (hs : ∀ c ∈ s, Scalar c) (rest : List ℕ) :
    decode (encode s ++ rest) = s ++ decode rest := by
  induction s with
  | nil => rfl
  | cons c s ih =>
      rw [encode_cons, List.append_assoc, decode_encodeChar (hs c List.mem_cons_self),
        ih fun d hd ↦ hs d (List.mem_cons_of_mem c hd)]
      rfl

theorem decode_cut_char {c : ℕ} (hc : Scalar c) {cut : List ℕ} (hcut : cut <+: encodeChar c) :
    ∀ d ∈ decode cut, d = c ∨ d = replacement := by
  intro d hd
  rcases encodeChar_cases hc with ⟨-, h⟩ | ⟨b, p, bs, h, hstart, hcompletes⟩
  all_goals
    by_cases hwhole : cut = encodeChar c
    · have hdecode := decode_encodeChar hc []
      rw [List.append_nil, ← hwhole, decode_nil] at hdecode
      rw [hdecode, List.mem_singleton] at hd
      exact .inl hd
  · rw [h] at hcut hwhole
    cases cut with
    | nil => cases hd
    | cons b' cut =>
        obtain ⟨rfl, hnil⟩ := List.cons_prefix_cons.mp hcut
        exact absurd (by rw [List.prefix_nil.mp hnil]) hwhole
  · rw [h] at hcut hwhole
    cases cut with
    | nil => cases hd
    | cons b' cut =>
        obtain ⟨rfl, hcut'⟩ := List.cons_prefix_cons.mp hcut
        have hne : cut ≠ bs := fun heq ↦ hwhole (heq ▸ rfl)
        rw [decode, decodeFrom, step, hstart] at hd
        rw [decodeFrom_cut hcompletes hcut' hne] at hd
        exact .inr (List.mem_singleton.mp hd)

/-- What is read of a text that is cut off: its characters, and U+FFFD for one that is cut. -/
theorem mem_decode_prefix {s cut : List ℕ} (hs : ∀ c ∈ s, Scalar c) (hcut : cut <+: encode s) :
    ∀ c ∈ decode cut, c ∈ s ∨ c = replacement := by
  induction s generalizing cut with
  | nil =>
      rw [encode_nil, List.prefix_nil] at hcut
      subst hcut
      intro c hc
      cases hc
  | cons d s ih =>
      have hd := hs d List.mem_cons_self
      have hs' : ∀ c ∈ s, Scalar c := fun c hc ↦ hs c (List.mem_cons_of_mem d hc)
      rw [encode_cons] at hcut
      rcases List.prefix_or_prefix_of_prefix hcut (List.prefix_append _ _) with hshort | hlong
      · intro c hc
        exact (decode_cut_char hd hshort c hc).imp_left fun h ↦ by simp [h]
      · obtain ⟨cut', rfl⟩ := hlong
        rw [List.prefix_append_right_inj] at hcut
        rw [decode_encodeChar hd]
        intro c hc
        rcases List.mem_cons.mp hc with rfl | hc
        · exact .inl List.mem_cons_self
        · exact (ih hs' hcut c hc).imp_left (List.mem_cons_of_mem d)

/-! ## What the decoder puts out -/

/-- The least and the greatest character that a partial one can become. -/
def Partial.least (p : Partial) : ℕ := (p.value * 64 + (p.low - 0x80)) * 64 ^ (p.left - 1)

def Partial.greatest (p : Partial) : ℕ :=
  (p.value * 64 + (p.high - 0x80) + 1) * 64 ^ (p.left - 1) - 1

structure Partial.Sound (p : Partial) : Prop where
  left : p.left = 1 ∨ p.left = 2 ∨ p.left = 3
  low : 0x80 ≤ p.low
  scalar : ∀ c, p.least ≤ c → c ≤ p.greatest → Scalar c

theorem scalar_replacement : Scalar replacement := .inr (by decide)

/-- What is left of a character after its first byte. -/
theorem sound_two {b : ℕ} (hb : 0xc2 ≤ b ∧ b ≤ 0xdf) :
    Partial.Sound ⟨1, b - 0xc0, 0x80, 0xbf⟩ := by
  refine ⟨.inl rfl, Nat.le_refl _, fun c _ hle ↦ .inl ?_⟩
  simp only [Partial.greatest, Nat.sub_self, Nat.pow_zero, Nat.mul_one] at hle
  omega

theorem sound_three {b : ℕ} (hb : 0xe0 ≤ b ∧ b ≤ 0xef) :
    Partial.Sound ⟨2, b - 0xe0, if b = 0xe0 then 0xa0 else 0x80,
      if b = 0xed then 0x9f else 0xbf⟩ := by
  refine ⟨.inr (.inl rfl), by dsimp only; split_ifs <;> omega, fun c hge hle ↦ ?_⟩
  simp only [Partial.greatest, Partial.least, Nat.reduceSub, Nat.pow_one] at hle hge
  unfold Scalar
  split_ifs at hle hge <;> omega

theorem sound_four {b : ℕ} (hb : 0xf0 ≤ b ∧ b ≤ 0xf4) :
    Partial.Sound ⟨3, b - 0xf0, if b = 0xf0 then 0x90 else 0x80,
      if b = 0xf4 then 0x8f else 0xbf⟩ := by
  refine ⟨.inr (.inr rfl), by dsimp only; split_ifs <;> omega, fun c hge hle ↦ ?_⟩
  simp only [Partial.greatest, Partial.least, Nat.reduceSub, Nat.reducePow] at hle hge
  unfold Scalar
  split_ifs at hle hge <;> omega

theorem start_sound (b : ℕ) :
    (∀ c ∈ (start b).1, Scalar c) ∧ ∀ p, (start b).2 = some p → p.Sound := by
  have hnone : ∀ p : Partial, none = some p → p.Sound := fun _ h ↦ nomatch h
  have hnil : ∀ c ∈ ([] : List ℕ), Scalar c := fun _ h ↦ nomatch h
  by_cases h₁ : b < 0x80
  · rw [start, if_pos h₁]
    exact ⟨List.forall_mem_singleton.mpr (.inl (by omega)), hnone⟩
  by_cases h₂ : 0xc2 ≤ b ∧ b ≤ 0xdf
  · rw [start, if_neg h₁, if_pos h₂]
    exact ⟨hnil, fun p hp ↦ Option.some.inj hp ▸ sound_two h₂⟩
  by_cases h₃ : 0xe0 ≤ b ∧ b ≤ 0xef
  · rw [start, if_neg h₁, if_neg h₂, if_pos h₃]
    exact ⟨hnil, fun p hp ↦ Option.some.inj hp ▸ sound_three h₃⟩
  by_cases h₄ : 0xf0 ≤ b ∧ b ≤ 0xf4
  · rw [start, if_neg h₁, if_neg h₂, if_neg h₃, if_pos h₄]
    exact ⟨hnil, fun p hp ↦ Option.some.inj hp ▸ sound_four h₄⟩
  · rw [start, if_neg h₁, if_neg h₂, if_neg h₃, if_neg h₄]
    exact ⟨List.forall_mem_singleton.mpr scalar_replacement, hnone⟩

theorem next_bounds {p : Partial} {b : ℕ} (hlow : 0x80 ≤ p.low)
    (hrange : p.low ≤ b ∧ b ≤ p.high) :
    p.value * 64 + (p.low - 0x80) ≤ p.extend b ∧
      p.extend b + 1 ≤ p.value * 64 + (p.high - 0x80) + 1 := by
  unfold Partial.extend
  omega

/-- A further byte narrows what the character can be. -/
theorem next_sound {p : Partial} (hp : p.Sound) {b : ℕ} (hrange : p.low ≤ b ∧ b ≤ p.high)
    (hlast : p.left ≠ 1) : (p.next b).Sound := by
  obtain ⟨hleast, hgreatest⟩ := next_bounds hp.low hrange
  generalize hextend : p.extend b = v at hleast hgreatest
  have hnext : p.next b = ⟨p.left - 1, v, 0x80, 0xbf⟩ := by rw [Partial.next, hextend]
  have hscalar := hp.scalar
  unfold Partial.least Partial.greatest at hscalar
  generalize p.value * 64 + (p.low - 0x80) = least at hleast hscalar
  generalize p.value * 64 + (p.high - 0x80) + 1 = greatest at hgreatest hscalar
  rw [hnext]
  rcases hp.left with hleft | hleft | hleft
  · exact absurd hleft hlast
  · rw [hleft] at hscalar ⊢
    refine ⟨.inl rfl, Nat.le_refl _, fun c hge hle ↦ hscalar c ?_ ?_⟩
    · simp only [Partial.least, Nat.reduceSub, Nat.pow_zero, Nat.pow_one] at hge ⊢
      omega
    · simp only [Partial.greatest, Nat.reduceSub, Nat.pow_zero, Nat.pow_one] at hle ⊢
      omega
  · rw [hleft] at hscalar ⊢
    refine ⟨.inr (.inl rfl), Nat.le_refl _, fun c hge hle ↦ hscalar c ?_ ?_⟩
    · simp only [Partial.least, Nat.reduceSub, Nat.pow_one, Nat.reducePow] at hge ⊢
      omega
    · simp only [Partial.greatest, Nat.reduceSub, Nat.pow_one, Nat.reducePow] at hle ⊢
      omega

/-- The last byte makes one of the characters that were possible. -/
theorem scalar_extend {p : Partial} (hp : p.Sound) {b : ℕ} (hrange : p.low ≤ b ∧ b ≤ p.high)
    (hlast : p.left = 1) : Scalar (p.extend b) := by
  obtain ⟨hleast, hgreatest⟩ := next_bounds hp.low hrange
  apply hp.scalar
  · simp only [Partial.least, hlast, Nat.sub_self, Nat.pow_zero, Nat.mul_one]
    exact hleast
  · simp only [Partial.greatest, hlast, Nat.sub_self, Nat.pow_zero, Nat.mul_one]
    exact Nat.le_sub_one_of_lt hgreatest

theorem step_sound {q : Option Partial} (hq : ∀ p, q = some p → p.Sound) (b : ℕ) :
    (∀ c ∈ (step q b).1, Scalar c) ∧ ∀ p, (step q b).2 = some p → p.Sound := by
  cases q with
  | none => exact start_sound b
  | some p =>
      by_cases hrange : p.low ≤ b ∧ b ≤ p.high
      · by_cases hlast : p.left = 1
        · rw [step, if_pos hrange, if_pos hlast]
          exact ⟨List.forall_mem_singleton.mpr (scalar_extend (hq p rfl) hrange hlast),
            (fun _ h ↦ nomatch h)⟩
        · rw [step, if_pos hrange, if_neg hlast]
          exact ⟨(fun _ h ↦ nomatch h),
            fun _ h ↦ Option.some.inj h ▸ next_sound (hq p rfl) hrange hlast⟩
      · rw [step, if_neg hrange]
        obtain ⟨hchars, hopen⟩ := start_sound b
        exact ⟨List.forall_mem_cons.mpr ⟨scalar_replacement, hchars⟩, hopen⟩

theorem scalar_of_mem_decodeFrom {q : Option Partial} (hq : ∀ p, q = some p → p.Sound)
    (bs : List ℕ) : ∀ c ∈ decodeFrom q bs, Scalar c := by
  induction bs generalizing q with
  | nil =>
      cases q with
      | none =>
          intro c hc
          cases hc
      | some p =>
          intro c hc
          rw [List.mem_singleton.mp hc]
          exact scalar_replacement
  | cons b bs ih =>
      obtain ⟨hchars, hopen⟩ := step_sound hq b
      intro c hc
      have hc' : c ∈ (step q b).1 ++ decodeFrom (step q b).2 bs := by
        cases q <;> exact hc
      rcases List.mem_append.mp hc' with hc' | hc'
      · exact hchars c hc'
      · exact ih hopen c hc'

/-- The decoder never puts out a surrogate. -/
theorem scalar_of_mem_decode (bs : List ℕ) : ∀ c ∈ decode bs, Scalar c :=
  scalar_of_mem_decodeFrom (q := none) (fun _ h ↦ nomatch h) bs

end Utf8
