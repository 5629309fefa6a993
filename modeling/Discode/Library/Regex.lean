import Mathlib.Data.List.Basic
import Mathlib.Data.Nat.Notation

/-!
# Backtracking regular expressions

Patterns over an arbitrary alphabet with the semantics of a backtracking engine: a pattern
yields its matches from a position in the order in which the engine tries them, and the
first one is the match.  A position remembers the text before it, in reverse, because
zero-width tests look at both neighbours.
-/

set_option autoImplicit false

inductive Regex (α : Type*) where
  | empty
  | char (p : α → Bool)
  /-- A zero-width test of the symbols before and after the position. -/
  | look (p : Option α → Option α → Bool)
  | seq (r s : Regex α)
  | alt (r s : Regex α)
  | star (greedy : Bool) (r : Regex α)

namespace Regex

variable {α β : Type*}

structure Cursor (α : Type*) where
  before : List α
  after : List α

namespace Cursor

def start (text : List α) : Cursor α := ⟨[], text⟩

def map (f : α → β) (c : Cursor α) : Cursor β := ⟨c.before.map f, c.after.map f⟩

/-- The text between `c` and a later position. -/
def upTo (c e : Cursor α) : List α := c.after.take (c.after.length - e.after.length)

end Cursor

/-- Repetition; an iteration that consumes nothing is not tried again. -/
def iterate (step : Cursor α → List (Cursor α)) (greedy : Bool) : ℕ → Cursor α → List (Cursor α)
  | 0, c => [c]
  | n + 1, c =>
      let more := ((step c).filter fun e ↦ e.after.length < c.after.length).flatMap
        (iterate step greedy n)
      if greedy then more ++ [c] else c :: more

/-- The ends of the matches from `c`, first choice first. -/
def ends : Regex α → Cursor α → List (Cursor α)
  | empty, c => [c]
  | char p, c =>
      match c.after with
      | [] => []
      | a :: as => if p a then [⟨a :: c.before, as⟩] else []
  | look p, c => if p c.before.head? c.after.head? then [c] else []
  | seq r s, c => (r.ends c).flatMap s.ends
  | alt r s, c => r.ends c ++ s.ends c
  | star greedy r, c => iterate r.ends greedy c.after.length c

def comap (f : α → β) : Regex β → Regex α
  | empty => empty
  | char p => char (p ∘ f)
  | look p => look fun x y ↦ p (x.map f) (y.map f)
  | seq r s => seq (r.comap f) (s.comap f)
  | alt r s => alt (r.comap f) (s.comap f)
  | star greedy r => star greedy (r.comap f)

/-! ## Derived patterns -/

def opt (r : Regex α) : Regex α := alt r empty

def plus (r : Regex α) : Regex α := seq r (star true r)

/-- `r{n}`. -/
def exactly : ℕ → Regex α → Regex α
  | 0, _ => empty
  | n + 1, r => seq r (exactly n r)

/-- `r{n,}`. -/
def atLeast (n : ℕ) (r : Regex α) : Regex α := seq (exactly n r) (star true r)

def oneOf : List (Regex α) → Regex α
  | [] => char fun _ ↦ false
  | [r] => r
  | r :: rs => alt r (oneOf rs)

def all : List (Regex α) → Regex α
  | [] => empty
  | [r] => r
  | r :: rs => seq r (all rs)

/-! ## Substitution -/

/-- A pattern `(?P<keep>keep)secret`; without the group, `keep` is `empty`. -/
structure Rule (α : Type*) where
  keep : Regex α
  secret : Regex α

def Rule.comap (f : α → β) (rule : Rule β) : Rule α := ⟨rule.keep.comap f, rule.secret.comap f⟩

/-- The end of the group and of the match that the engine finds at `c`. -/
def Rule.match? (rule : Rule α) (c : Cursor α) : Option (Cursor α × Cursor α) :=
  ((rule.keep.ends c).flatMap fun k ↦ (rule.secret.ends k).map fun e ↦ (k, e)).head?

/-- A text cut into the symbols outside all matches and the matches found by scanning. -/
inductive Piece (α : Type*) where
  | copy (a : α)
  | hit (keep secret : List α)

/-- Scanning from left to right for matches that do not overlap; the rules it is used for
match no empty text.  The first argument bounds the number of steps. -/
def Rule.scan (rule : Rule α) : ℕ → Cursor α → List (Piece α)
  | 0, _ => []
  | n + 1, c =>
      match c.after with
      | [] => []
      | a :: as =>
          match rule.match? c with
          | some (k, e) =>
              if e.after.length < c.after.length then
                .hit (c.upTo k) (k.upTo e) :: rule.scan n e
              else .copy a :: rule.scan n ⟨a :: c.before, as⟩
          | none => .copy a :: rule.scan n ⟨a :: c.before, as⟩

def Rule.pieces (rule : Rule α) (text : List α) : List (Piece α) :=
  rule.scan text.length (.start text)

def Piece.render (replacement : List α) : Piece α → List α
  | .copy a => [a]
  | .hit keep _ => keep ++ replacement

/-- `pattern.sub`, keeping the group and replacing the rest of every match. -/
def Rule.sub (rule : Rule α) (replacement : List α) (text : List α) : List α :=
  (rule.pieces text).flatMap (Piece.render replacement)

end Regex
