import Animatic.Script.Lexeme

/-!
# Token streams

`TokenStream.ofText` cuts a text into tokens. It never fails: what cannot be read becomes a token
with a diagnostic beside it, and the last token stands for the end of the text.
-/

namespace Animatic.Script

/-- The tokens of a text and the problems found while they were read, each in source order. -/
structure TokenStream where
  tokens : List Token
  diagnostics : List Diagnostic

namespace TokenStream

/-- The tokens of a text whose first character stands at `position`. -/
def scan (afterOperand : Bool) (position : Position) (text : List Char) : TokenStream :=
  let skipped := triviaLength false text
  let position := position.advance (text.take skipped)
  match _h : text.drop skipped with
  | [] => ⟨[.atEnd position], []⟩
  | first :: rest =>
    let lexeme := Lexeme.read afterOperand first rest
    let lexemeText := first :: rest.take lexeme.extra
    let following := scan lexeme.kind.endsOperand (position.advance lexemeText)
      (rest.drop lexeme.extra)
    { tokens := ⟨lexeme.kind, String.ofList lexemeText, position⟩ :: following.tokens
      diagnostics :=
        (lexeme.problem.map (Diagnostic.mk · position)).toList ++ following.diagnostics }
termination_by text.length
decreasing_by
  have := congrArg List.length _h
  simp only [List.length_drop, List.length_cons] at this ⊢
  omega

/-- The tokens of a text that starts at `position`. -/
def ofText (position : Position) (text : List Char) : TokenStream := scan false position text

end TokenStream

end Animatic.Script
