import Animatic.Script.Grammar

/-!
# Statements

A statement is told by its first word; anything else is an expression, which an `=` turns into an
assignment. Semicolons separate statements but are needed nowhere. `program` reads statements until
the tokens end or one does not fit, and keeps those in front of it.
-/

namespace Animatic.Script

/-- The tokens behind any semicolons in front. -/
def skipSemicolons (tokens : List Token) : List Token := tokens.dropWhile (Token.isMark .semicolon)

theorem length_skipSemicolons_le (tokens : List Token) :
    (skipSemicolons tokens).length ≤ tokens.length := by
  unfold skipSemicolons
  exact (List.dropWhile_sublist _).length_le

/-- Whether the value of a `return` follows it: an expression on the same line. -/
def returnsValue (line : Nat) (tokens : List Token) : Bool :=
  let token := front tokens
  token.position.line == line &&
    !(token.isMark .rightBrace || token.isMark .semicolon || token.isFinish)

section

variable (splice : Position → List Char → Except Diagnostic (List Part))

mutual

/-- A statement. -/
def statement (tokens : List Token) : Read Stmt tokens.length :=
  match tokens with
  | ⟨.name "func", _, position⟩ :: ⟨.name name, _, _⟩ :: rest => do
    let ⟨_, rest₁, h₁⟩ ← takeMark .leftParen "'(' after function name" rest
    let ⟨parameters, rest₂, h₂⟩ ← parameterList rest₁
    let ⟨body, rest₃, h₃⟩ ← block rest₂
    return ⟨.define position name parameters body, rest₃, by simp only [List.length_cons]; omega⟩
  | ⟨.name "repeat", _, position⟩ :: rest => do
    let ⟨count, rest₁, h₁⟩ ← expression splice false rest
    let ⟨body, rest₂, h₂⟩ ← block rest₁
    return ⟨.loop position count body, rest₂, by simp only [List.length_cons]; omega⟩
  | ⟨.name "wait", _, position⟩ :: rest => do
    let ⟨seconds, rest₁, h₁⟩ ← expression splice true rest
    return ⟨.wait position seconds, rest₁, by simp only [List.length_cons]; omega⟩
  | ⟨.name "return", _, position⟩ :: rest =>
    if returnsValue position.line rest then do
      let ⟨value, rest₁, h₁⟩ ← expression splice true rest
      return ⟨.leave position (some value), rest₁, by simp only [List.length_cons]; omega⟩
    else .ok ⟨.leave position none, rest, by simp⟩
  | tokens => do
    let position := (front tokens).position
    let ⟨target, rest₁, h₁⟩ ← expression splice true tokens
    match mark? .assign rest₁ with
    | none => return ⟨.expr position target, rest₁, h₁⟩
    | some ⟨_, rest₂, h₂⟩ =>
      if target.isTarget then
        let ⟨value, rest₃, h₃⟩ ← expression splice true rest₂
        return ⟨.assign position target value, rest₃, by omega⟩
      else throw ⟨.invalidTarget, target.position⟩
termination_by (tokens.length, 0)

/-- Statements in braces. -/
def block (tokens : List Token) : Read (List Stmt) tokens.length := do
  let ⟨_, rest₁, h₁⟩ ← takeMark .leftBrace "'\x7b'" tokens
  let ⟨body, rest₂, h₂⟩ ← blockBody rest₁
  return ⟨body, rest₂, Nat.lt_trans h₂ h₁⟩
termination_by (tokens.length, 0)

/-- Statements up to and with the closing brace. -/
def blockBody (tokens : List Token) : Read (List Stmt) tokens.length :=
  let inner := skipSemicolons tokens
  have h : inner.length ≤ tokens.length := length_skipSemicolons_le tokens
  match mark? .rightBrace inner with
  | some ⟨_, rest, h₁⟩ => .ok ⟨[], rest, by omega⟩
  | none =>
    if (front inner).isFinish then .error ⟨.unclosedBlock, (front inner).position⟩
    else do
      let ⟨first, rest₁, h₁⟩ ← statement inner
      let ⟨others, rest₂, h₂⟩ ← blockBody rest₁
      return ⟨first :: others, rest₂, by omega⟩
termination_by (tokens.length, 1)
decreasing_by
  all_goals
    have := length_skipSemicolons_le tokens
    omega

end

/-- The statements in front of the first problem, and that problem. -/
def program (tokens : List Token) : List Stmt × Option Diagnostic :=
  let inner := skipSemicolons tokens
  have _h : inner.length ≤ tokens.length := length_skipSemicolons_le tokens
  if (front inner).isFinish then ([], none)
  else
    match statement splice inner with
    | .error diagnostic => ([], some diagnostic)
    | .ok ⟨first, rest, _h₁⟩ =>
      let (others, diagnostic) := program rest
      (first :: others, diagnostic)
termination_by tokens.length

/-- An expression that takes up all of the tokens. -/
def standalone (tokens : List Token) : Except Diagnostic Expr := do
  let ⟨value, rest, _⟩ ← expression splice true tokens
  if (front rest).isFinish then return value
  else throw ⟨.trailing (front rest).description, (front rest).position⟩

end

end Animatic.Script
