import Animatic.Script.Statement
import Animatic.Script.TokenStream

/-!
# Scripts

`Script.parse` reads a text into the statements in front of its first syntax problem and the
problems found on the way. The spans of a `$<…>` literal are texts of their own: each is cut into
tokens, at the literal's position, and read as one expression, and may hold such literals again.
-/

namespace Animatic.Script

/-- The parts of a literal whose braces hold expressions. Literals inside its spans nest at most
`depth` levels; a literal nests fewer levels than it has characters. -/
def spliceWithin : Nat → Position → List Char → Except Diagnostic (List Part)
  | 0, _, _ => .ok []
  | depth + 1, position, text =>
    (Literal.spans text).mapM fun
      | .plain run => .ok (.text (String.ofList run))
      | .braced content =>
        .expr <$> standalone (spliceWithin depth) (TokenStream.ofText position content).tokens

/-- The parts of a literal whose braces hold expressions. -/
def splice (position : Position) (text : List Char) : Except Diagnostic (List Part) :=
  spliceWithin text.length position text

/-- An expression that takes up a whole list of tokens. -/
def Expr.ofTokens (tokens : List Token) : Except Diagnostic Expr := standalone splice tokens

/-- Tokens that are still to be read, and the syntax problem that ended the reading, if one did. -/
structure Reader where
  tokens : List Token
  problem : Option Diagnostic

namespace Reader

/-- A reader of some tokens; if they do not end with the end of the text, it is put behind them, at
the position of the last one. -/
def ofTokens (tokens : List Token) : Reader :=
  match tokens.getLast? with
  | none => ⟨[.atEnd .start], none⟩
  | some last => ⟨if last.isFinish then tokens else tokens ++ [.atEnd last.position], none⟩

/-- Reads every statement in front of the first problem, after which nothing is left to read. -/
def statements (reader : Reader) : List Stmt × Reader :=
  match reader.problem with
  | some _ => ([], reader)
  | none =>
    let (statements, problem) := program splice reader.tokens
    (statements, ⟨[], problem⟩)

end Reader

end Animatic.Script

namespace Animatic

open Script

/-- A script: the statements in front of its first syntax problem, and all problems found, those of
the tokens first. -/
structure Script where
  statements : List Stmt
  diagnostics : List Diagnostic

namespace Script

/-- Reads a script. -/
def parse (source : String) : Script :=
  let stream := TokenStream.ofText .start source.toList
  let (statements, reader) := (Reader.ofTokens stream.tokens).statements
  ⟨statements, stream.diagnostics ++ reader.problem.toList⟩

/-- Whether a syntax problem ended the reading. -/
def isTruncated (script : Script) : Bool :=
  script.diagnostics.any (·.problem.kind == .syntactic)

end Script

end Animatic
