import ClassDiagram.Lexeme

/-! # Rules of a grammar

A rule reads lexemes from the start of a list.  It either finds a value, and says how many
lexemes it used for it, or finds nothing.  Either way it says how far it got: how many lexemes
stood before the furthest one that some test refused, in abandoned alternatives too.  A rule
that refused nothing may say any number up to what it used; this moves no report, since a rule
that fails refuses a lexeme at or behind that point.

Choice is ordered and repetition is greedy: the second alternative is tried only where the first
one finds nothing, and a repetition never gives back what it found.

* `run_bind`, `run_orElse`: what a sequence and a choice find, in terms of what remains;
* `run_token_cons`: a token is found exactly where it stands first.
-/

namespace ClassDiagram.Grammar

/-- What a rule did: the value with the number of lexemes used, and how far it got. -/
structure Step (α : Type) where
  found : Option (α × Nat)
  reach : Nat

/-- A way of reading the start of a list of lexemes. -/
def Rule (α : Type) : Type := List Lexeme → Step α

namespace Rule

/-- Find `a` without using a lexeme. -/
def give {α : Type} (a : α) : Rule α := fun _ => ⟨some (a, 0), 0⟩

def refuse {α : Type} : Rule α := fun _ => ⟨none, 0⟩

def andThen {α β : Type} (p : Rule α) (f : α → Rule β) : Rule β := fun s =>
  let first := p s
  match first.found with
  | none => ⟨none, first.reach⟩
  | some (a, n) =>
    let second := f a (s.drop n)
    ⟨second.found.map fun (b, m) => (b, n + m), max first.reach (n + second.reach)⟩

/-- Read by `q` where `p` finds nothing. -/
def orElse {α : Type} (p q : Rule α) : Rule α := fun s =>
  let first := p s
  match first.found with
  | some _ => first
  | none =>
    let second := q s
    ⟨second.found, max first.reach second.reach⟩

instance : Monad Rule where
  pure := give
  bind := andThen

instance {α : Type} : OrElse (Rule α) where
  orElse p q := orElse p (q ())

def lexeme (test : Lexeme → Bool) : Rule Lexeme
  | [] => ⟨none, 0⟩
  | l :: _ => if test l then ⟨some (l, 1), 0⟩ else ⟨none, 0⟩

def token (t : Token) : Rule Lexeme :=
  lexeme fun l => l.token == t

def atEnd : Rule Unit
  | [] => ⟨some ((), 0), 0⟩
  | _ :: _ => ⟨none, 0⟩

def option {α : Type} (p : Rule α) : Rule (Option α) :=
  (do return some (← p)) <|> give none

/-- Whether a token stands here; it is used if it does. -/
def flag (t : Token) : Rule Bool :=
  (do let _ ← token t; return true) <|> give false

def upTo {α : Type} : Nat → Rule α → Rule (List α)
  | 0, _ => give []
  | n + 1, p => (do let a ← p; let rest ← upTo n p; return a :: rest) <|> give []

/-- `p` over and over.  Each time uses a lexeme, so one more time than there are lexemes is never
reached. -/
def many {α : Type} (p : Rule α) : Rule (List α) := fun s =>
  upTo (s.length + 1) p s

def many1 {α : Type} (p : Rule α) : Rule (List α) := do
  let a ← p
  let rest ← many p
  return a :: rest

/-- `p` once and then over and over behind a separator; the last one is not used without a `p`
behind it. -/
def sepBy1 {α : Type} (p : Rule α) (separator : Token) : Rule (List α) := do
  let a ← p
  let rest ← many (do let _ ← token separator; p)
  return a :: rest

def between {α : Type} (opening closing : Token) (p : Rule α) : Rule α := do
  let _ ← token opening
  let a ← p
  let _ ← token closing
  return a

/-! ## What a rule finds and what it leaves -/

/-- The value that a rule finds with the lexemes that remain behind it. -/
def run {α : Type} (p : Rule α) (s : List Lexeme) : Option (α × List Lexeme) :=
  (p s).found.map fun (a, n) => (a, s.drop n)

theorem run_pure {α : Type} (a : α) (s : List Lexeme) : run (pure a) s = some (a, s) := rfl

theorem run_give {α : Type} (a : α) (s : List Lexeme) : run (give a) s = some (a, s) := rfl

theorem run_refuse {α : Type} (s : List Lexeme) : run (refuse : Rule α) s = none := rfl

theorem run_bind {α β : Type} (p : Rule α) (f : α → Rule β) (s : List Lexeme) :
    run (p >>= f) s = (run p s).bind fun (a, rest) => run (f a) rest := by
  show run (andThen p f) s = _
  cases h : (p s).found with
  | none => simp [run, andThen, h]
  | some found =>
    obtain ⟨a, n⟩ := found
    cases h' : (f a (s.drop n)).found with
    | none => simp [run, andThen, h, h']
    | some found' => simp [run, andThen, h, h', List.drop_drop]

theorem run_orElse {α : Type} (p q : Rule α) (s : List Lexeme) :
    run (p <|> q) s = (run p s).or (run q s) := by
  show run (orElse p q) s = _
  cases h : (p s).found with
  | none => simp [run, orElse, h]
  | some found => simp [run, orElse, h]

theorem run_token_nil (t : Token) : run (token t) [] = none := rfl

theorem run_token_cons (t : Token) (l : Lexeme) (s : List Lexeme) :
    run (token t) (l :: s) = if l.token = t then some (l, s) else none := by
  by_cases h : l.token = t <;> simp [run, token, lexeme, h]

end Rule

end ClassDiagram.Grammar
