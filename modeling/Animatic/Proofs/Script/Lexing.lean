import Animatic.Script.TokenStream

/-!
# Cutting a text into tokens

A text is its tokens with white space and comments between them, and nothing else: no character is
lost, and every token stands where counting the characters in front of it says.

* `Trivia`: white space and comments.
* `Spelling`: how a token of a kind is written, and what is wrong with it.
* `Cut`: a text as trivia and tokens in turn.
* `TokenStream.Faithful`: what that says about places, the end and the diagnostics.
* `TokenStream.ofText_faithful`: the tokens and diagnostics of every text.
-/

namespace Animatic.Script

open Animatic.Text Animatic.Number

/-! ## What tokens are written with -/

/-- White space and comments. A comment runs up to a newline or, in the last run of a text, to its
end. -/
inductive Trivia (last : Bool) : List Char → Prop where
  | nil : Trivia last []
  | blank {c : Char} {rest : List Char} (hblank : isBlank c = true) (hrest : Trivia last rest) :
      Trivia last (c :: rest)
  | comment {body rest : List Char} (hline : '\n' ∉ body) (hrest : Trivia last rest) :
      Trivia last ('#' :: body ++ '\n' :: rest)
  | lastComment {body : List Char} (hlast : last = true) (hline : '\n' ∉ body) :
      Trivia last ('#' :: body)

/-- Whether trivia could begin with a character. -/
def beginsTrivia (c : Char) : Bool := isBlank c || c == '#'

/-- The characters of a mark. -/
def Mark.spelling : Mark → List Char
  | leftParen => ['('] | rightParen => [')'] | leftBrace => ['\x7b'] | rightBrace => ['\x7d']
  | leftBracket => ['['] | rightBracket => [']'] | comma => [','] | colon => [':']
  | semicolon => [';'] | dot => ['.'] | assign => ['='] | plus => ['+'] | minus => ['-']
  | star => ['*'] | slash => ['/'] | percent => ['%'] | bang => ['!'] | equal => ['=', '=']
  | notEqual => ['!', '='] | less => ['<'] | greater => ['>'] | lessEqual => ['<', '=']
  | greaterEqual => ['>', '='] | andAnd => ['&', '&'] | orOr => ['|', '|']

/-- What a literal of a style stands between. -/
inductive LiteralStyle.Delimits : LiteralStyle → List Char → Char → Prop where
  | angles : Delimits .verbatim ['<'] '>'
  | quotes : Delimits .verbatim ['"'] '"'
  | names : Delimits .names ['&', '<'] '>'
  | expressions : Delimits .expressions ['$', '<'] '>'

/-- How a token of a kind is written, with what is wrong with it. -/
inductive Spelling : Token.Kind → List Char → Option Problem → Prop where
  | name (text : List Char) : Spelling (.name (String.ofList text)) text none
  | number (text : List Char) : Spelling (.number ((read? text).getD 0)) text none
  | mark (mark : Mark) : Spelling (.mark mark) mark.spelling none
  | closed {style : LiteralStyle} {opener : List Char} {closer : Char}
      (h : style.Delimits opener closer) (content : List Char) :
      Spelling (.literal style (String.ofList content)) (opener ++ content ++ [closer]) none
  | unclosed {style : LiteralStyle} {opener : List Char} {closer : Char}
      (h : style.Delimits opener closer) (content : List Char) :
      Spelling (.literal style (String.ofList content)) (opener ++ content) (some .unclosedLiteral)
  | stray (c : Char) : Spelling (.stray c) [c] (some (.unexpectedCharacter c))

/-- A text that starts at a position is cut into tokens, with diagnostics. -/
inductive Cut : Position → List Char → List Token → List Diagnostic → Prop where
  /-- Trivia and the end. -/
  | finish {position : Position} {trivia : List Char} (htrivia : Trivia true trivia) :
      Cut position trivia [.atEnd (position.advance trivia)] []
  /-- Trivia, a token and the rest. A literal that is not closed leaves nothing behind it. -/
  | token {position : Position} {trivia text rest : List Char} {first : Char}
      {kind : Token.Kind} {problem : Option Problem} {tokens : List Token}
      {diagnostics : List Diagnostic} (htrivia : Trivia false trivia)
      (hfirst : beginsTrivia first = false) (hspelling : Spelling kind (first :: text) problem)
      (hlast : problem = some .unclosedLiteral → rest = [])
      (hrest : Cut (position.advance (trivia ++ first :: text)) rest tokens diagnostics) :
      Cut position (trivia ++ (first :: text ++ rest))
        (⟨kind, String.ofList (first :: text), position.advance trivia⟩ :: tokens)
        ((problem.map (Diagnostic.mk · (position.advance trivia))).toList ++ diagnostics)

/-! ## Trivia -/

/-- What is skipped is trivia, also where it continues a comment. -/
private theorem trivia_take (text : List Char) :
    (∀ skipped, triviaLength false text = skipped →
      Trivia (text.drop skipped).isEmpty (text.take skipped)) ∧
    ∀ skipped, triviaLength true text = skipped → ∀ body, '\n' ∉ body →
      Trivia (text.drop skipped).isEmpty ('#' :: body ++ text.take skipped) := by
  induction text with
  | nil =>
    refine ⟨fun skipped _ => ?_, fun skipped _ body hbody => ?_⟩
    · rw [List.take_nil]
      exact .nil
    · rw [List.take_nil, List.append_nil]
      exact .lastComment (by rw [List.drop_nil, List.isEmpty_nil]) hbody
  | cons c rest ih =>
    obtain ⟨hplain, hcomment⟩ := ih
    refine ⟨?_, ?_⟩
    · rintro skipped rfl
      rw [triviaLength, if_neg Bool.false_ne_true]
      by_cases hblank : isBlank c = true
      · rw [if_pos hblank, List.take_succ_cons, List.drop_succ_cons]
        exact .blank hblank (hplain _ rfl)
      · rw [if_neg hblank]
        by_cases hhash : c = '#'
        · subst hhash
          rw [if_pos (beq_self_eq_true _), List.take_succ_cons, List.drop_succ_cons]
          exact hcomment _ rfl [] List.not_mem_nil
        · rw [if_neg (by simpa using hhash), List.take_zero]
          exact .nil
    · rintro skipped rfl body hbody
      rw [triviaLength, if_pos rfl, List.take_succ_cons, List.drop_succ_cons]
      by_cases hnewline : c = '\n'
      · subst hnewline
        exact .comment hbody (hplain _ rfl)
      · rw [show (c != '\n') = true by simpa using hnewline, List.append_cons]
        refine hcomment _ rfl (body ++ [c]) ?_
        simpa [hbody] using fun h => hnewline h.symm

/-- Behind what is skipped stands no further trivia. -/
private theorem beginsTrivia_drop {text rest : List Char} {first : Char} {inComment : Bool}
    (h : text.drop (triviaLength inComment text) = first :: rest) : beginsTrivia first = false := by
  induction text generalizing inComment with
  | nil => rw [List.drop_nil] at h; cases h
  | cons c tail ih =>
    rw [triviaLength] at h
    split at h
    · exact ih h
    · split at h
      · exact ih h
      · rename_i hblank
        split at h
        · exact ih h
        · rename_i hhash
          obtain ⟨rfl, -⟩ := List.cons.inj h
          rw [beginsTrivia, Bool.eq_false_iff.mpr hblank, Bool.eq_false_iff.mpr hhash,
            Bool.or_false]

/-! ## Lexemes -/

private theorem getElem?_closingAngle {depth length : Nat} {body : List Char}
    (h : closingAngle? depth body = some length) : body[length]? = some '>' := by
  induction body generalizing depth length with
  | nil => cases h
  | cons c rest ih =>
    rw [closingAngle?] at h
    split at h
    · rename_i hclose
      obtain rfl := Option.some.inj h
      rw [List.getElem?_cons_zero, hclose.1]
    · obtain ⟨length, hlength, rfl⟩ := Option.map_eq_some_iff.mp h
      exact ih hlength

private theorem getElem?_closingQuote {length : Nat} {body : List Char}
    (h : closingQuote? body = some length) : body[length]? = some '"' := by
  induction body generalizing length with
  | nil => cases h
  | cons c rest ih =>
    rw [closingQuote?] at h
    split at h
    · rename_i hclose
      obtain rfl := Option.some.inj h
      rw [List.getElem?_cons_zero, hclose]
    · obtain ⟨length, hlength, rfl⟩ := Option.map_eq_some_iff.mp h
      exact ih hlength

/-- What a lexeme is to the text that it is read from: a token of its kind is spelled by the
characters that it takes, and a literal that is not closed takes them all. -/
private structure Lexeme.Reads (lexeme : Lexeme) (first : Char) (rest : List Char) : Prop where
  spelling : Spelling lexeme.kind (first :: rest.take lexeme.extra) lexeme.problem
  last : lexeme.problem = some .unclosedLiteral → rest.drop lexeme.extra = []

namespace Lexeme

private theorem reads_ofMark {mark : Mark} {first : Char} {rest : List Char} {extra : Nat}
    (h : first :: rest.take extra = mark.spelling) :
    (ofMark mark extra).Reads first rest :=
  ⟨by rw [ofMark, h]; exact .mark mark, nofun⟩

private theorem reads_pick {second first : Char} {double single : Mark} (rest : List Char)
    (hdouble : double.spelling = [first, second]) (hsingle : single.spelling = [first]) :
    (pick second double single rest).Reads first rest := by
  cases rest with
  | nil => exact reads_ofMark hsingle.symm
  | cons c rest =>
    rw [pick]
    split
    · rename_i hsecond
      exact reads_ofMark (by rw [hdouble, ← hsecond]; rfl)
    · exact reads_ofMark hsingle.symm

/-- A literal is spelled by its opener, its content and, if there is one, its closer. -/
private theorem reads_literal {style : LiteralStyle} {closing? : List Char → Option Nat}
    {first closer : Char} {more rest : List Char}
    (hdelimits : style.Delimits (first :: more) closer)
    (hclosing : ∀ body length, closing? body = some length → body[length]? = some closer) :
    (literal style closing? more.length (more ++ rest)).Reads first (more ++ rest) := by
  rw [literal, List.drop_left]
  split
  · rename_i length hlength
    have hcloser := hclosing _ _ hlength
    refine ⟨?_, fun hunclosed => by cases hunclosed⟩
    have htake : (more ++ rest).take (more.length + length + 1) =
        more ++ rest.take length ++ [closer] := by
      rw [Nat.add_assoc, List.take_length_add_append, List.take_add_one, hcloser,
        List.append_assoc]
      rfl
    rw [htake]
    exact .closed hdelimits _
  · refine ⟨?_, fun _ => List.drop_length⟩
    rw [List.take_length]
    exact .unclosed hdelimits rest

private theorem reads_number (first : Char) (rest : List Char) :
    (number first rest).Reads first rest :=
  ⟨.number _, nofun⟩

private theorem reads_name (first : Char) (rest : List Char) :
    (name first rest).Reads first rest := by
  refine ⟨?_, nofun⟩
  have htake : rest.take (rest.takeWhile continuesName).length = rest.takeWhile continuesName :=
    (List.prefix_iff_eq_take.mp (List.takeWhile_prefix _)).symm
  rw [name, htake]
  exact .name _

private theorem reads_ofChar {mark : Mark} {first : Char} (h : Mark.ofChar? first = some mark)
    (rest : List Char) : (ofMark mark 0).Reads first rest := by
  refine reads_ofMark ?_
  unfold Mark.ofChar? at h
  rw [List.take_zero]
  split at h <;> first | (obtain rfl := Option.some.inj h; rfl) | cases h

private theorem exists_of_head? {c : Char} {rest : List Char} (h : rest.head? = some c) :
    ∃ tail, rest = [c] ++ tail := by
  obtain ⟨tail, htail⟩ := List.head?_eq_some_iff.mp h
  exact ⟨tail, htail⟩

/-- Every character starts a lexeme. -/
private theorem reads_read (afterOperand : Bool) (first : Char) (rest : List Char) :
    (read afterOperand first rest).Reads first rest := by
  have hangle (body : List Char) (length : Nat) (h : closingAngle? 0 body = some length) :
      body[length]? = some '>' := getElem?_closingAngle h
  have hquote (body : List Char) (length : Nat) (h : closingQuote? body = some length) :
      body[length]? = some '"' := getElem?_closingQuote h
  unfold read
  cases hmark : Mark.ofChar? first with
  | some mark => exact reads_ofChar hmark rest
  | none =>
    dsimp only
    by_cases h : first = '='
    · rw [if_pos h]
      subst h
      exact reads_pick rest rfl rfl
    rw [if_neg h]
    clear h
    by_cases h : first = '!'
    · rw [if_pos h]
      subst h
      exact reads_pick rest rfl rfl
    rw [if_neg h]
    clear h
    by_cases h : first = '>'
    · rw [if_pos h]
      subst h
      exact reads_pick rest rfl rfl
    rw [if_neg h]
    clear h
    by_cases h : first = '<'
    · rw [if_pos h]
      subst h
      cases afterOperand with
      | true => exact reads_pick rest rfl rfl
      | false => exact reads_literal .angles hangle
    rw [if_neg h]
    clear h
    by_cases h : first = '&' ∧ rest.head? = some '&'
    · rw [if_pos h]
      obtain ⟨rfl, hsecond⟩ := h
      obtain ⟨tail, rfl⟩ := exists_of_head? hsecond
      exact reads_ofMark rfl
    rw [if_neg h]
    clear h
    by_cases h : first = '&' ∧ rest.head? = some '<'
    · rw [if_pos h]
      obtain ⟨rfl, hsecond⟩ := h
      obtain ⟨tail, rfl⟩ := exists_of_head? hsecond
      exact reads_literal .names hangle
    rw [if_neg h]
    clear h
    by_cases h : first = '$' ∧ rest.head? = some '<'
    · rw [if_pos h]
      obtain ⟨rfl, hsecond⟩ := h
      obtain ⟨tail, rfl⟩ := exists_of_head? hsecond
      exact reads_literal .expressions hangle
    rw [if_neg h]
    clear h
    by_cases h : first = '|' ∧ rest.head? = some '|'
    · rw [if_pos h]
      obtain ⟨rfl, hsecond⟩ := h
      obtain ⟨tail, rfl⟩ := exists_of_head? hsecond
      exact reads_ofMark rfl
    rw [if_neg h]
    clear h
    by_cases h : first = '"'
    · rw [if_pos h]
      subst h
      exact reads_literal .quotes hquote
    rw [if_neg h]
    clear h
    by_cases h : first = '.'
    · rw [if_pos h]
      split
      · exact reads_number first rest
      · exact reads_ofMark (by rw [h, List.take_zero]; rfl)
    rw [if_neg h]
    clear h
    split
    · exact reads_number first rest
    · split
      · exact reads_name first rest
      · exact ⟨by rw [List.take_zero]; exact .stray first, nofun⟩

end Lexeme

/-! ## Token streams -/

/-- The length of what opens a literal. -/
def LiteralStyle.openerLength : LiteralStyle → Nat
  | verbatim => 1
  | names | expressions => 2

/-- What is wrong with a token by its looks: a literal that is not closed is its opener and its
content, and nothing more. -/
def Token.problem? (token : Token) : Option Problem :=
  match token.kind with
  | .stray c => some (.unexpectedCharacter c)
  | .literal style content =>
    if token.text.length = style.openerLength + content.length then some .unclosedLiteral else none
  | _ => none

private theorem LiteralStyle.Delimits.length_eq {style : LiteralStyle} {opener : List Char}
    {closer : Char} (h : style.Delimits opener closer) : opener.length = style.openerLength := by
  cases h <;> rfl

/-- What is wrong with a token shows in its text. -/
theorem Spelling.problem?_eq {kind : Token.Kind} {text : List Char}
    {problem : Option Problem} (h : Spelling kind text problem) (position : Position) :
    (Token.mk kind (String.ofList text) position).problem? = problem := by
  cases h with
  | name | number | mark | stray => rfl
  | closed hdelimits content =>
    simp only [Token.problem?, String.length_ofList, List.length_append, List.length_singleton,
      hdelimits.length_eq]
    exact if_neg (by omega)
  | unclosed hdelimits content =>
    simp only [Token.problem?, String.length_ofList, List.length_append, hdelimits.length_eq]
    exact if_pos trivial

namespace TokenStream

/-- Scanning cuts a text. -/
theorem scan_cut (afterOperand : Bool) (position : Position) (text : List Char) :
    Cut position text (scan afterOperand position text).tokens
      (scan afterOperand position text).diagnostics := by
  fun_induction scan afterOperand position text with
  | case1 afterOperand position text skipped position' h =>
    have htrivia := (trivia_take text).1 skipped rfl
    rw [h, List.isEmpty_nil] at htrivia
    have htext : text.take skipped = text := by
      rw [← List.append_nil (text.take skipped), ← h, List.take_append_drop]
    rw [htext] at htrivia
    have hfinish := @Cut.finish position _ htrivia
    rwa [← htext] at hfinish ⊢
  | case2 afterOperand position text skipped position' first rest h lexeme lexemeText following ih =>
    have htrivia := (trivia_take text).1 skipped rfl
    rw [h, List.isEmpty_cons] at htrivia
    have hreads := Lexeme.reads_read afterOperand first rest
    have htext : text = text.take skipped ++ (lexemeText ++ rest.drop lexeme.extra) := by
      rw [List.cons_append, List.take_append_drop, ← h, List.take_append_drop]
    have hrest : Cut (position.advance (text.take skipped ++ lexemeText))
        (rest.drop lexeme.extra) following.tokens following.diagnostics := by
      rw [Position.advance_append]
      exact ih
    have hcut := Cut.token htrivia (beginsTrivia_drop h) hreads.spelling hreads.last hrest
    rwa [← htext] at hcut

end TokenStream

/-! ## What a cut says -/

/-- Runs of trivia and the texts of tokens in turn. -/
def weave : List (List Char) → List Token → List Char
  | run :: runs, token :: tokens => run ++ token.text.toList ++ weave runs tokens
  | _, _ => []

/-- What a text that starts at a position has to do with its tokens and diagnostics. -/
structure TokenStream.Faithful (position : Position) (text : List Char) (stream : TokenStream) :
    Prop where
  /-- The text is trivia and tokens in turn, and every token is spelled as its kind says. -/
  cut : Cut position text stream.tokens stream.diagnostics
  /-- No character is lost, and a token stands behind all the characters in front of it. -/
  lossless : ∃ runs : List (List Char), runs.length = stream.tokens.length ∧
    text = weave runs stream.tokens ∧
    ∀ i run token, runs[i]? = some run → stream.tokens[i]? = some token →
      Trivia true run ∧
        token.position = position.advance (weave (runs.take i) (stream.tokens.take i) ++ run)
  /-- The end of the text is the last token, and the only one without characters. -/
  ending : ∃ front, stream.tokens = front ++ [.atEnd (position.advance text)] ∧
    ∀ token ∈ front, token.kind ≠ .finish ∧ token.text ≠ ""
  /-- The diagnostics are the problems of the tokens, in their order. -/
  diagnosed : stream.diagnostics = stream.tokens.filterMap fun token =>
    token.problem?.map (Diagnostic.mk · token.position)
  /-- Only the last token before the end can be a literal that is not closed. -/
  unclosed : ∀ front token back, stream.tokens = front ++ token :: back →
    token.problem? = some .unclosedLiteral → back = [.atEnd (position.advance text)]

private theorem Trivia.toLast {last : Bool} {run : List Char} (h : Trivia last run) :
    Trivia true run := by
  induction h with
  | nil => exact .nil
  | blank hblank _ ih => exact .blank hblank ih
  | comment hline _ ih => exact .comment hline ih
  | lastComment _ hline => exact .lastComment rfl hline

theorem Spelling.kind_ne_finish {kind : Token.Kind} {text : List Char}
    {problem : Option Problem} (h : Spelling kind text problem) : kind ≠ .finish := by
  cases h <;> exact Token.Kind.noConfusion

/-- A literal with expressions in its braces is its opener and its content, closed or not. -/
theorem Spelling.opens {content : String} {text : List Char} {problem : Option Problem}
    (h : Spelling (.literal .expressions content) text problem) :
    '$' :: '<' :: content.toList <+: text := by
  generalize hkind : Token.Kind.literal .expressions content = kind at h
  cases h with
  | closed hdelimits inner =>
    obtain ⟨rfl, rfl⟩ := Token.Kind.literal.inj hkind
    cases hdelimits
    rw [String.toList_ofList]
    exact List.prefix_append _ _
  | unclosed hdelimits inner =>
    obtain ⟨rfl, rfl⟩ := Token.Kind.literal.inj hkind
    cases hdelimits
    rw [String.toList_ofList]
    exact List.prefix_rfl
  | _ => cases hkind

namespace Cut

variable {position : Position} {text : List Char} {tokens : List Token}
  {diagnostics : List Diagnostic}

private theorem lossless (h : Cut position text tokens diagnostics) :
    ∃ runs : List (List Char), runs.length = tokens.length ∧ text = weave runs tokens ∧
      ∀ i run token, runs[i]? = some run → tokens[i]? = some token →
        Trivia true run ∧
          token.position = position.advance (weave (runs.take i) (tokens.take i) ++ run) := by
  induction h with
  | @finish position trivia htrivia =>
    refine ⟨[trivia], rfl, (by simp [weave, Token.atEnd]), ?_⟩
    intro i run token hrun htoken
    cases i with
    | zero =>
      obtain rfl := Option.some.inj hrun
      obtain rfl := Option.some.inj htoken
      exact ⟨htrivia, rfl⟩
    | succ i => cases hrun
  | @token position trivia text rest first kind problem tokens diagnostics htrivia _ _ _ _ ih =>
    obtain ⟨runs, hlength, hrest, hplaced⟩ := ih
    refine ⟨trivia :: runs, congrArg (· + 1) hlength, ?_, ?_⟩
    · rw [weave, ← hrest, String.toList_ofList, List.append_assoc]
    · intro i run token hrun htoken
      cases i with
      | zero =>
        obtain rfl := Option.some.inj hrun
        obtain rfl := Option.some.inj htoken
        exact ⟨htrivia.toLast, rfl⟩
      | succ i =>
        obtain ⟨hrunTrivia, hposition⟩ := hplaced i run token hrun htoken
        refine ⟨hrunTrivia, ?_⟩
        rw [hposition, List.take_succ_cons, List.take_succ_cons, weave, String.toList_ofList,
          List.append_assoc (trivia ++ _), Position.advance_append position (trivia ++ _)]

/-- A token stands where the text in front of it ends, which for the end is the whole text. -/
theorem stands (h : Cut position text tokens diagnostics) {token : Token} (hmem : token ∈ tokens) :
    ∃ lead, token.position = position.advance lead ∧ lead ++ token.text.toList <+: text ∧
      (token.kind = .finish ∧ lead = text ∨
        ∃ problem, Spelling token.kind token.text.toList problem) := by
  induction h with
  | @finish position trivia =>
    obtain rfl := List.mem_singleton.mp hmem
    exact ⟨trivia, rfl, by simp [Token.atEnd], .inl ⟨rfl, rfl⟩⟩
  | @token position trivia text rest first kind problem tokens diagnostics _ _ hspelling _ _ ih =>
    rw [← List.append_assoc]
    obtain rfl | hmem := List.mem_cons.mp hmem
    · refine ⟨trivia, rfl, ?_, .inr ⟨problem, ?_⟩⟩ <;> rw [String.toList_ofList]
      · exact List.prefix_append _ rest
      · exact hspelling
    · obtain ⟨lead, hposition, hlead, hkind⟩ := ih hmem
      refine ⟨trivia ++ first :: text ++ lead, ?_, ?_, hkind.imp_left ?_⟩
      · rw [hposition, Position.advance_append _ _ lead]
      · rw [List.append_assoc]
        exact (List.prefix_append_right_inj _).mpr hlead
      · rintro ⟨hfinish, rfl⟩
        exact ⟨hfinish, rfl⟩

theorem ending (h : Cut position text tokens diagnostics) :
    ∃ front, tokens = front ++ [.atEnd (position.advance text)] ∧
      ∀ token ∈ front, token.kind ≠ .finish ∧ token.text ≠ "" := by
  induction h with
  | finish => exact ⟨[], rfl, nofun⟩
  | @token position trivia text rest first kind problem tokens diagnostics _ _ hspelling _ _ ih =>
    obtain ⟨front, htokens, hfront⟩ := ih
    refine ⟨⟨kind, String.ofList (first :: text), position.advance trivia⟩ :: front, ?_, ?_⟩
    · rw [htokens, List.cons_append, ← Position.advance_append, List.append_assoc]
    · intro token hmem
      obtain rfl | hmem := List.mem_cons.mp hmem
      · refine ⟨hspelling.kind_ne_finish, fun hempty => ?_⟩
        have hnil := congrArg String.toList hempty
        rw [String.toList_ofList] at hnil
        cases hnil
      · exact hfront token hmem

private theorem diagnosed (h : Cut position text tokens diagnostics) :
    diagnostics = tokens.filterMap fun token =>
      token.problem?.map (Diagnostic.mk · token.position) := by
  induction h with
  | finish => rfl
  | @token position trivia text rest first kind problem tokens diagnostics _ _ hspelling _ _ ih =>
    rw [List.filterMap_cons, hspelling.problem?_eq, ← ih]
    cases problem <;> rfl

/-- Nothing but the end can be cut from nothing. -/
theorem of_nil (h : Cut position [] tokens diagnostics) :
    tokens = [.atEnd position] ∧ diagnostics = [] := by
  generalize htext : ([] : List Char) = text at h
  cases h with
  | finish => exact ⟨by rw [← htext, Position.advance_nil], rfl⟩
  | token => exact absurd htext (by simp)

private theorem unclosed (h : Cut position text tokens diagnostics) :
    ∀ front token back, tokens = front ++ token :: back →
      token.problem? = some .unclosedLiteral → back = [.atEnd (position.advance text)] := by
  induction h with
  | finish =>
    intro front token back htokens hproblem
    cases front with
    | nil =>
      obtain ⟨rfl, -⟩ := List.cons.inj htokens
      cases hproblem
    | cons => exact absurd htokens (by simp)
  | @token position trivia text rest first kind problem tokens diagnostics _ _ hspelling hlast
      hrest ih =>
    intro front token back htokens hproblem
    cases front with
    | nil =>
      obtain ⟨rfl, rfl⟩ := List.cons.inj htokens
      rw [hspelling.problem?_eq] at hproblem
      obtain rfl := hlast hproblem
      rw [List.append_nil, hrest.of_nil.1]
    | cons _ front =>
      have hback := ih front token back (List.cons.inj htokens).2 hproblem
      rw [hback, ← Position.advance_append, List.append_assoc]

end Cut

/-- Every text is cut without loss, and every token and diagnostic says where it stands. -/
theorem TokenStream.ofText_faithful (position : Position) (text : List Char) :
    Faithful position text (ofText position text) := by
  have hcut := scan_cut false position text
  exact ⟨hcut, hcut.lossless, hcut.ending, hcut.diagnosed, hcut.unclosed⟩

end Animatic.Script
