import Mathlib.Data.List.Infix

/-!
# Splitting expressions

An expression is text with code between brackets. Brackets after a backslash are passed over, and
within code they are written without it.
-/

namespace N8n

namespace ExpressionParser

inductive ExpressionChunk
  | text (text : List Char)
  | code (text : List Char) (hasClosingBrackets : Bool)
  deriving DecidableEq, Repr

/-- The bracket that is searched for. -/
inductive Bracket
  | open
  | close
  deriving DecidableEq, Repr

namespace Bracket

def char : Bracket → Char
  | .open => '{'
  | .close => '}'

def other : Bracket → Bracket
  | .open => .close
  | .close => .open

end Bracket

/-- `replace` with strings, which replaces the first occurrence. -/
def replaceFirst (pattern replacement : List Char) : List Char → List Char
  | [] => []
  | x :: s =>
    if pattern <+: x :: s then replacement ++ (x :: s).drop pattern.length
    else x :: replaceFirst pattern replacement s

def escapeCode (text : List Char) : List Char := replaceFirst ['\\', '}', '}'] ['}', '}'] text

def escapeTmplExpression (part : List Char) : List Char :=
  replaceFirst ['}', '}'] ['\\', '}', '}'] part

/-- The index of the first match of `(?<escape>\\|)(?<brackets>\{\{)`, or of the same with closing
brackets, and whether it is escaped. -/
def exec (c : Char) : List Char → Option (ℕ × Bool)
  | [] => none
  | x :: s =>
    if ['\\', c, c] <+: x :: s then some (0, true)
    else if [c, c] <+: x :: s then some (0, false)
    else (exec c s).map fun r => (r.1 + 1, r.2)

/-- The chunk that ends while a bracket is searched for. -/
def chunk (buffer : List Char) (hasClosingBrackets : Bool) : Bracket → ExpressionChunk
  | .open => .text buffer
  | .close => .code (escapeCode buffer) hasClosingBrackets

/-- The loop, from the rest of the expression on. -/
def splitFrom (searchingFor : Bracket) (buffer : List Char) (expr : List Char) :
    List ExpressionChunk :=
  if _h : expr = [] then []
  else match exec searchingFor.char expr with
  | none => [chunk (buffer ++ expr) false searchingFor]
  | some (index, true) =>
    splitFrom searchingFor (buffer ++ expr.take (index + 3)) (expr.drop (index + 3))
  | some (index, false) =>
    chunk (buffer ++ expr.take index) true searchingFor ::
      splitFrom searchingFor.other [] (expr.drop (index + 2))
termination_by expr.length
decreasing_by all_goals
  have := List.length_pos_iff.2 _h
  rw [List.length_drop]
  omega

def splitExpression (expression : List Char) : List ExpressionChunk := splitFrom .open [] expression

def joinChunk : ExpressionChunk → List Char
  | .code text hasClosingBrackets =>
    ['{', '{'] ++ escapeTmplExpression text ++ if hasClosingBrackets then ['}', '}'] else []
  | .text text => text

def joinExpression (parts : List ExpressionChunk) : List Char := parts.flatMap joinChunk

end ExpressionParser

end N8n
