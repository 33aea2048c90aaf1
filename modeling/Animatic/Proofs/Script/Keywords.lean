import Mathlib
import Animatic.Proofs.Script.Names
import Animatic.Proofs.Script.Placement
import Animatic.Proofs.Script.Reading

/-!
# Expressions behind keywords

An expression is cut into the same tokens behind a keyword as on its own, unless it begins with a
`<`: behind `wait`, which is taken for an operand, that is a comparison.

* `Phrase`: a text that reads as an expression on its own.
* `Script.Holds`: a script of one statement.
* `parse_phrase`: what a phrase makes of a `return`, of an assignment and of a `wait`.
-/

namespace Animatic.Script

open Animatic.Text

/-- A text that reads as an expression on its own, and begins with its first token. -/
structure Phrase (text : List Char) (value : Expr) : Prop where
  begins : ∃ first rest, text = first :: rest ∧ beginsTrivia first = false
  clean : (TokenStream.ofText .start text).diagnostics = []
  reads : Expr.ofTokens (TokenStream.ofText .start text).tokens = .ok value

/-- A name that is no keyword in front of a `=`. -/
structure Assignable (name : String) : Prop where
  isName : Literal.isName name.toList = true
  plain : Plain name
  noRepeat : name ≠ "repeat"
  noWait : name ≠ "wait"
  noReturn : name ≠ "return"

/-- A script without problems that is one statement, up to positions. -/
structure Holds (script : Script) (stmt : Stmt) : Prop where
  statements : Stmt.allUnplaced script.statements = [stmt.unplaced]
  diagnostics : script.diagnostics = []

/-! ## Phrases elsewhere -/

/-- What a phrase reads as at another place. -/
structure Phrase.At (text : List Char) (value : Expr) (place : Position) : Prop where
  clean : (TokenStream.ofText place text).diagnostics = []
  reads : ∃ value' rest, value'.unplaced = value.unplaced ∧
    (expression splice true (TokenStream.ofText place text).tokens).outcome = .ok (value', rest) ∧
    (front rest).kind = .finish
  front : (front (TokenStream.ofText place text).tokens).position = place

theorem Phrase.at_place {text : List Char} {value : Expr} (h : Phrase text value)
    (place : Position) : Phrase.At text value place where
  clean := ofText_clean_elsewhere h.clean place
  reads := by
    have helsewhere := ofTokens_elsewhere .start place text
    rw [h.reads] at helsewhere
    obtain ⟨value', hvalue', hunplaced⟩ := helsewhere.of_ok
    obtain ⟨rest, hread, hrest⟩ := outcome_of_ofTokens hvalue'
    exact ⟨value', rest, hunplaced, hread, hrest⟩
  front := by
    obtain ⟨first, rest, rfl, hfirst⟩ := h.begins
    rw [TokenStream.ofText, TokenStream.scan_token hfirst]
    rfl

/-! ## Words in front of a text -/

private theorem isBlank_space : isBlank ' ' = true := by decide

private theorem blank_space : ∀ c ∈ [' '], isBlank c = true :=
  List.forall_mem_singleton.mpr isBlank_space

private theorem isName_return : Literal.isName "return".toList = true := by decide

private theorem isName_wait : Literal.isName "wait".toList = true := by decide

/-- The tokens of a text with a word in front. -/
theorem scan_word {word : String} (hword : Literal.isName word.toList = true)
    (afterOperand : Bool) (place : Position) (rest : List Char) :
    TokenStream.scan afterOperand place (word.toList ++ ' ' :: rest) =
      let following := TokenStream.scan (Token.Kind.name word).endsOperand
        ((place.advance word.toList).next ' ') rest
      { tokens := ⟨.name word, word, place⟩ :: following.tokens
        diagnostics := following.diagnostics } := by
  have hspace : ∀ c ∈ (' ' :: rest).head?, continuesName c = false := by
    intro c hc
    obtain rfl := Option.some.inj hc
    exact continuesName_eq_false_of_isBlank isBlank_space
  rw [TokenStream.scan_name hword hspace, String.ofList_toList]
  dsimp only
  rw [← List.singleton_append (l := rest), TokenStream.scan_blanks blank_space]
  rfl

/-- The tokens of a text with a `=` in front. -/
private theorem scan_assign (afterOperand : Bool) (place : Position) (rest : List Char) :
    TokenStream.scan afterOperand place ('=' :: ' ' :: rest) =
      let following := TokenStream.ofText ((place.next '=').next ' ') rest
      { tokens := ⟨.mark .assign, "=", place⟩ :: following.tokens
        diagnostics := following.diagnostics } := by
  have htoken : TokenStream.scan afterOperand place ('=' :: ' ' :: rest) =
      { tokens := ⟨.mark .assign, "=", place⟩ ::
          (TokenStream.scan false (place.next '=') ([' '] ++ rest)).tokens
        diagnostics := (TokenStream.scan false (place.next '=') ([' '] ++ rest)).diagnostics } :=
    TokenStream.scan_token (by decide) afterOperand place _
  rw [htoken, TokenStream.scan_blanks blank_space]
  rfl

/-- Behind an operand a `<` compares. -/
private theorem scan_less (place : Position) (rest : List Char) :
    ∃ mark found tokens diagnostics,
      TokenStream.scan true place ('<' :: rest) =
        ⟨⟨.mark mark, found, place⟩ :: tokens, diagnostics⟩ ∧
      (mark = .less ∧ found = "<" ∨ mark = .lessEqual ∧ found = "<=") := by
  rw [TokenStream.scan_token (by decide)]
  cases rest with
  | nil => exact ⟨.less, "<", _, _, rfl, .inl ⟨rfl, rfl⟩⟩
  | cons c others =>
    have hread : Lexeme.read true '<' (c :: others) =
        if c = '=' then Lexeme.ofMark .lessEqual 1 else Lexeme.ofMark .less 0 := rfl
    rw [hread]
    by_cases hc : c = '='
    · rw [if_pos hc, hc]
      exact ⟨.lessEqual, "<=", _, _, rfl, .inr ⟨rfl, rfl⟩⟩
    · rw [if_neg hc]
      exact ⟨.less, "<", _, _, rfl, .inl ⟨rfl, rfl⟩⟩

private theorem begins_of_word {word text : String} {place : Position} (rest : List Token) :
    Begins (⟨.name word, text, place⟩ :: rest) := by
  refine ⟨not_startsWith_of_name rfl, not_startsWith_of_name rfl, nofun⟩

/-! ## Statements -/

namespace Assignable

variable {name text : String} {place : Position} {assign : Token} {rest : List Token}

theorem bare (h : Assignable name) (hassign : assign.kind = .mark .assign) :
    Bare (⟨.name name, text, place⟩ :: assign :: rest) where
  word token others heq := by
    obtain ⟨rfl, -⟩ := List.cons.inj heq
    refine ⟨fun hkind => h.noRepeat ?_, fun hkind => h.noWait ?_, fun hkind => h.noReturn ?_⟩ <;>
      exact Token.Kind.name.inj hkind
  pair token next others other heq _ hkind := by
    obtain ⟨rfl, -⟩ := List.cons.inj (List.cons.inj heq).2
    exact Token.Kind.noConfusion (hassign.symm.trans hkind)

/-- The name in front of a `=` is the target of an assignment. -/
theorem outcome_expression (h : Assignable name) (hassign : assign.kind = .mark .assign) :
    (expression splice true (⟨.name name, text, place⟩ :: assign :: rest)).outcome =
      .ok (.name place name, assign :: rest) := by
  have hends : Ends (assign :: rest) := ends_cons hassign rfl
  have hbrace : ¬ startsWith .leftBrace (assign :: rest) := fun hbrace =>
    Mark.noConfusion (Token.Kind.mark.inj (hassign.symm.trans hbrace))
  exact outcome_expression_operand rfl
    (outcome_primary_name rfl h.plain.1 h.plain.2 fun _ _ => hbrace)
    (outcome_suffixes_stop hends.not_extends) hends

end Assignable

section

variable {source : String} {value : Expr} (h : Phrase source.toList value)

include h

/-- A phrase behind `return` is the value that is returned. -/
private theorem holds_return :
    Holds (parse ("return " ++ source)) (.leave .start (some value)) := by
  have hplaced := h.at_place ⟨1, 8⟩
  obtain ⟨value', rest, hunplaced, hread, hrest⟩ := hplaced.reads
  have hreturns : returnsValue Position.start.line
      (TokenStream.ofText ⟨1, 8⟩ source.toList).tokens = true :=
    returnsValue_of_opens (opens_of_expression hread) (by rw [hplaced.front]; rfl)
  have hstream : TokenStream.ofText .start ("return " ++ source).toList =
      { tokens := ⟨.name "return", "return", .start⟩ ::
          (TokenStream.ofText ⟨1, 8⟩ source.toList).tokens
        diagnostics := (TokenStream.ofText ⟨1, 8⟩ source.toList).diagnostics } := by
    rw [String.toList_append]
    exact scan_word isName_return false .start source.toList
  have hparse : parse ("return " ++ source) = ⟨[.leave .start (some value')], []⟩ :=
    parse_single hstream hplaced.clean (begins_of_word _)
      (outcome_statement_leave_value rfl hreturns hread) hrest
  rw [hparse]
  refine ⟨?_, rfl⟩
  rw [Stmt.allUnplaced, Stmt.allUnplaced, Stmt.unplaced, Stmt.unplaced, hunplaced]

/-- A phrase behind `wait` that does not begin with a `<` is the time that is waited for. -/
private theorem holds_wait (hangle : source.toList.head? ≠ some '<') :
    Holds (parse ("wait " ++ source)) (.wait .start value) := by
  have hplaced := h.at_place ⟨1, 6⟩
  obtain ⟨value', rest, hunplaced, hread, hrest⟩ := hplaced.reads
  have hsame : TokenStream.scan true ⟨1, 6⟩ source.toList =
      TokenStream.ofText ⟨1, 6⟩ source.toList := by
    obtain ⟨first, others, hsource, hfirst⟩ := h.begins
    rw [hsource] at hangle
    rw [hsource, TokenStream.ofText, TokenStream.scan_token hfirst, TokenStream.scan_token hfirst,
      Lexeme.read_congr (fun hlt => hangle (congrArg some hlt)) true false]
  have hstream : TokenStream.ofText .start ("wait " ++ source).toList =
      { tokens := ⟨.name "wait", "wait", .start⟩ ::
          (TokenStream.ofText ⟨1, 6⟩ source.toList).tokens
        diagnostics := (TokenStream.ofText ⟨1, 6⟩ source.toList).diagnostics } := by
    rw [String.toList_append, ← hsame]
    exact scan_word isName_wait false .start source.toList
  have hparse : parse ("wait " ++ source) = ⟨[.wait .start value'], []⟩ :=
    parse_single hstream hplaced.clean (begins_of_word _)
      (outcome_statement_wait rfl hread) hrest
  rw [hparse]
  refine ⟨?_, rfl⟩
  rw [Stmt.allUnplaced, Stmt.allUnplaced, Stmt.unplaced, Stmt.unplaced, hunplaced]

/-- A phrase behind a name and a `=` is the value that the name is given. -/
private theorem holds_assign {name : String} (hname : Assignable name) :
    Holds (parse (name ++ " = " ++ source)) (.assign .start (.name .start name) value) := by
  generalize hplace : (Position.start.advance name.toList).next ' ' = place
  have hplaced := h.at_place ((place.next '=').next ' ')
  obtain ⟨value', rest, hunplaced, hread, hrest⟩ := hplaced.reads
  have hstream : TokenStream.ofText .start (name ++ " = " ++ source).toList =
      { tokens := ⟨.name name, name, .start⟩ :: ⟨.mark .assign, "=", place⟩ ::
          (TokenStream.ofText ((place.next '=').next ' ') source.toList).tokens
        diagnostics :=
          (TokenStream.ofText ((place.next '=').next ' ') source.toList).diagnostics } := by
    have hsource : (name ++ " = " ++ source).toList =
        name.toList ++ ' ' :: '=' :: ' ' :: source.toList := by
      rw [String.toList_append, String.toList_append, List.append_assoc]
      rfl
    rw [hsource, TokenStream.ofText, scan_word hname.isName, hplace, scan_assign]
  have hparse : parse (name ++ " = " ++ source) =
      ⟨[.assign .start (.name .start name) value'], []⟩ :=
    parse_single hstream hplaced.clean (begins_of_word _)
      (outcome_statement_assign (hname.bare rfl) (hname.outcome_expression rfl) rfl rfl hread) hrest
  rw [hparse]
  refine ⟨?_, rfl⟩
  rw [Stmt.allUnplaced, Stmt.allUnplaced, Stmt.unplaced, Stmt.unplaced, hunplaced]

end

/-- A `<` behind `wait` compares, and no expression begins with a comparison. -/
private theorem parse_wait_angle {rest : List Char} {source : String}
    (hsource : source.toList = '<' :: rest) :
    (parse ("wait " ++ source)).statements = [] ∧
      ∃ found, (found = "<" ∨ found = "<=") ∧
        (parse ("wait " ++ source)).diagnostics.getLast? = some ⟨.unexpected found, ⟨1, 6⟩⟩ := by
  obtain ⟨mark, found, tokens, diagnostics, hscan, hmark⟩ := scan_less ⟨1, 6⟩ rest
  have hstream : TokenStream.ofText .start ("wait " ++ source).toList =
      ⟨⟨.name "wait", "wait", .start⟩ :: ⟨.mark mark, found, ⟨1, 6⟩⟩ :: tokens, diagnostics⟩ := by
    have hword := scan_word isName_wait false .start source.toList
    have hplace : (Position.start.advance "wait".toList).next ' ' = ⟨1, 6⟩ := rfl
    have hends : (Token.Kind.name "wait").endsOperand = true := rfl
    rw [hplace, hends, hsource, hscan] at hword
    rw [String.toList_append, hsource]
    exact hword
  have hexpression : (expression splice true (⟨.mark mark, found, ⟨1, 6⟩⟩ :: tokens)).outcome =
      .error ⟨.unexpected found, ⟨1, 6⟩⟩ := by
    obtain ⟨rfl, -⟩ | ⟨rfl, -⟩ := hmark <;>
      exact outcome_expression_error rfl (by rw [primary]; rfl)
  rw [parse_stopped hstream (begins_of_word _) (outcome_statement_wait_error rfl hexpression)]
  exact ⟨rfl, found, hmark.imp And.right And.right, List.getLast?_concat⟩

/-- A phrase behind `return` or behind a name and a `=` is a script of one statement. So it is
behind `wait` unless it begins with a `<`, which then stops the script. -/
theorem parse_phrase {source : String} {value : Expr} (h : Phrase source.toList value)
    {name : String} (hname : Assignable name) :
    Holds (parse ("return " ++ source)) (.leave .start (some value)) ∧
      Holds (parse (name ++ " = " ++ source)) (.assign .start (.name .start name) value) ∧
      (source.toList.head? ≠ some '<' →
        Holds (parse ("wait " ++ source)) (.wait .start value)) ∧
      (source.toList.head? = some '<' →
        (parse ("wait " ++ source)).statements = [] ∧
          ∃ found, (found = "<" ∨ found = "<=") ∧
            (parse ("wait " ++ source)).diagnostics.getLast? =
              some ⟨.unexpected found, ⟨1, 6⟩⟩) := by
  refine ⟨holds_return h, holds_assign h hname, holds_wait h, fun hangle => ?_⟩
  obtain ⟨rest, hsource⟩ := List.head?_eq_some_iff.mp hangle
  exact parse_wait_angle hsource

/-- The text `<1>` is returned and assigned, and cannot be waited for as `id` can. -/
theorem parse_phrase_text_and_name :
    Holds (parse "return <1>") (.leave .start (some (.text .start "1"))) ∧
      Holds (parse "v = <1>") (.assign .start (.name .start "v") (.text .start "1")) ∧
      Holds (parse "wait id") (.wait .start (.name .start "id")) ∧
      (parse "wait <1>").statements = [] := by
  have htext : Phrase "<1>".toList (.text .start "1") :=
    ⟨⟨'<', "1>".toList, rfl, by decide⟩, by cbv, by cbv⟩
  have hid : Phrase "id".toList (.name .start "id") :=
    ⟨⟨'i', "d".toList, rfl, by decide⟩, by cbv, by cbv⟩
  have hname : Assignable "v" :=
    ⟨by decide, ⟨by decide, by decide⟩, by decide, by decide, by decide⟩
  obtain ⟨hreturn, hassign, -, hstops⟩ := parse_phrase htext hname
  obtain ⟨-, -, hwait, -⟩ := parse_phrase hid hname
  exact ⟨hreturn, hassign, hwait (by decide), (hstops rfl).1⟩

end Animatic.Script
